import PipelineCompiler.Proofs.Component.Fields
import PipelineCompiler.Proofs.Isolation
import PipelineCompiler.Proofs.Warnings

namespace PipelineCompiler

/-!
# Traces of a run

The events of a call tell its observers what it does.

* `textAt?`, `reports`, `warningsIn` — what is read off some events;
* `Value.namesAt`, `Value.keysAt` — the names that are read off a document;
* `Note.IsOwn` — the notes that compilations take: what an event reports does not change its level
  or its message, and warnings begin like no other event;
* `WarningsTold`, `warningsTold` — the events for warnings tell which warnings are added;
* `Recorded.OnlyWarns` — computations that note nothing but warnings;
* `Registry.Told`, `Registry.told_intern` — the events with a message tell which parts are added
  to a registry.

The notes of a chain of steps are put together while the chain is opened, as its warnings are.
-/

/-! ### Reading events -/

/-- The text in a field of an event. -/
def textAt? (event : Keyed Value) (field : String) : Option String :=
  match Keyed.find? event field with
  | some (.str text) => some text
  | _ => none

/-- What a field holds in the events with a message. -/
def reports (message field : String) (events : List (Keyed Value)) : List (Option Value) :=
  (events.filter fun event => textAt? event "message" = some message).map (Keyed.find? · field)

/-- The messages of the warnings under a key. -/
def warningsIn (key : String) (events : List (Keyed Value)) : List (Option Value) :=
  (events.filter fun event =>
    textAt? event "level" = some "WARNING" ∧ textAt? event "task_id" = some key).map
      (Keyed.find? · "message")

/-- What fields with some texts hold. -/
def asFields (texts : List String) : List (Option Value) := texts.map fun text => some (.str text)

/-- The names of the items of a list within a document. -/
def Value.namesAt (document : Value) (path : List String) : List (Option Value) :=
  match document.under? path with
  | some (.list items) => items.map (Value.under? · ["name"])
  | _ => []

/-- The keys of a mapping within a document. -/
def Value.keysAt (document : Value) (path : List String) : List (Option Value) :=
  match document.under? path with
  | some (.map entries) => entries.map fun entry => some entry.1
  | _ => []

/-- The events for the observers of a target. -/
def eventsOf (target : String) (notes : List Note) : List (Keyed Value) :=
  notes.map (Note.eventFor target)

/-- What is reported first, and what is reported then. -/
theorem reports_append (message field : String) (events later : List (Keyed Value)) :
    reports message field (events ++ later) =
      reports message field events ++ reports message field later := by
  rw [reports, List.filter_append, List.map_append]
  rfl

/-- Different texts are different fields. -/
theorem asFields_nodup {texts : List String} (h : texts.Nodup) : (asFields texts).Nodup :=
  h.map fun _ _ heq => Value.str.inj (Option.some.inj heq)

/-- The fields of texts, one after another. -/
theorem asFields_append (texts later : List String) :
    asFields (texts ++ later) = asFields texts ++ asFields later := List.map_append

/-- The events of notes, one after another. -/
theorem eventsOf_append (target : String) (notes later : List Note) :
    eventsOf target (notes ++ later) = eventsOf target notes ++ eventsOf target later :=
  List.map_append

/-! ### Notes -/

/-- Whether a text begins with a capital letter. -/
def IsCapitalized (text : String) : Prop := text.toList.head?.any Char.isUpper = true

instance (text : String) : Decidable (IsCapitalized text) :=
  inferInstanceAs (Decidable (_ = true))

/-- A note as compilations take them.  Warnings begin with a capital letter, which no message of
    another event does. -/
def Note.IsOwn : Note → Prop
  | .event _ level message extra =>
    level ≠ "WARNING" ∧ ¬ IsCapitalized message ∧
      "level" ∉ Keyed.keys extra ∧ "message" ∉ Keyed.keys extra
  | .warning _ message => IsCapitalized message

section Fields

variable {target task level message : String}

/-- A field that is no extra field. -/
theorem find?_eventFields {extra : Keyed Value} {field : String} (h : field ∉ Keyed.keys extra) :
    Keyed.find? (eventFields target task level message extra) field =
      Keyed.find? (eventFields target task level message []) field := by
  unfold eventFields
  rw [List.foldl_nil]
  generalize [("target", Value.str target), ("task_id", Value.str (taskKey task)),
    ("level", Value.str level), ("message", Value.str message)] = fields
  induction extra generalizing fields with
  | nil => rfl
  | cons entry rest ih =>
    have hne : field ≠ entry.1 := fun heq => h (heq ▸ List.mem_cons_self)
    rw [List.foldl_cons, ih (fun hmem => h (List.mem_cons_of_mem _ hmem)),
      Keyed.find?_put_of_ne _ _ hne]

/-- The message of an event. -/
theorem textAt?_message {extra : Keyed Value} (h : "message" ∉ Keyed.keys extra) :
    textAt? (eventFields target task level message extra) "message" = some message := by
  rw [textAt?, find?_eventFields h]
  rfl

/-- The level of an event. -/
theorem textAt?_level {extra : Keyed Value} (h : "level" ∉ Keyed.keys extra) :
    textAt? (eventFields target task level message extra) "level" = some level := by
  rw [textAt?, find?_eventFields h]
  rfl

/-- An event with one extra field, read off by its message. -/
theorem reports_event {field : String} {v : Value} (h : field ≠ "message") :
    reports message field (eventsOf target [.event task level message [(field, v)]]) =
      [some v] := by
  have hmessage : textAt? (eventFields target task level message [(field, v)]) "message" =
      some message := textAt?_message (by simpa [Keyed.keys] using Ne.symm h)
  rw [reports, eventsOf, List.map_singleton, Note.eventFor, List.filter_cons, if_pos (by simpa)]
  exact congrArg (· :: []) (Keyed.find?_put_self _ _ _)

end Fields

/-- A warning has another message than any other event. -/
theorem reports_warnings {target message field : String} {notes : List Note}
    (hmessage : ¬ IsCapitalized message)
    (h : ∀ note ∈ notes, ∃ task text, note = .warning task text ∧ IsCapitalized text) :
    reports message field (eventsOf target notes) = [] := by
  rw [reports, List.map_eq_nil_iff, List.filter_eq_nil_iff]
  intro event hevent
  obtain ⟨note, hnote, rfl⟩ := List.mem_map.mp hevent
  obtain ⟨task, text, rfl, htext⟩ := h note hnote
  rw [Note.eventFor, textAt?_message List.not_mem_nil, decide_eq_true_eq]
  rintro heq
  exact hmessage (Option.some.inj heq ▸ htext)

/-! ### Warnings -/

/-- The texts of the warnings that are kept under a key. -/
def textsUnder (key : String) (warnings : List (String × String)) : List String :=
  (warnings.filter fun warning => taskKey warning.1 = key).map (·.2)

/-- One more warning stands under its own key only. -/
theorem textsUnder_warning (key task message : String) (rest : List Note) :
    textsUnder key ((Note.warning task message :: rest).filterMap Note.warning?) =
      (if taskKey task = key then [message] else []) ++
        textsUnder key (rest.filterMap Note.warning?) := by
  change textsUnder key ((task, message) :: rest.filterMap Note.warning?) = _
  rw [textsUnder, List.filter_cons]
  by_cases hkey : taskKey task = key
  · rw [if_pos (by simpa), if_pos hkey]
    rfl
  · rw [if_neg (by simpa), if_neg hkey]
    rfl

/-- The warnings under a key, after some notes. -/
theorem find?_foldl_addTo (notes : List Note) (kept : Keyed (List String)) (key : String) :
    (Keyed.find? (notes.foldl Note.addTo kept) key).getD [] =
      (Keyed.find? kept key).getD [] ++ textsUnder key (notes.filterMap Note.warning?) := by
  induction notes generalizing kept with
  | nil => exact (List.append_nil _).symm
  | cons note rest ih =>
    rw [List.foldl_cons, ih]
    cases note with
    | event => rfl
    | warning task message =>
      rw [textsUnder_warning, Note.addTo]
      by_cases hkey : taskKey task = key
      · rw [if_pos hkey, ← hkey, Keyed.find?_put_self, Option.getD_some, List.append_assoc]
      · rw [if_neg hkey, Keyed.find?_put_of_ne _ _ (Ne.symm hkey)]
        rfl

/-- The events for warnings tell which warnings were added, under each key and in their order. -/
def WarningsTold (before after : Keyed (List String)) (events : List (Keyed Value)) : Prop :=
  ∀ key, ∃ added, (Keyed.find? after key).getD [] = (Keyed.find? before key).getD [] ++
    added ∧
    warningsIn key events = asFields added

/-- The warnings among the events of some notes. -/
theorem warningsIn_eventsOf {target : String} {notes : List Note}
    (h : ∀ note ∈ notes, note.IsOwn) (key : String) :
    warningsIn key (eventsOf target notes) =
      asFields (textsUnder key (notes.filterMap Note.warning?)) := by
  -- By induction on the notes; each adds to the warnings only if it is one, and has the key.
  induction notes with
  | nil => rfl
  | cons note rest ih =>
    have hrest := ih fun other hother => h other (List.mem_cons_of_mem _ hother)
    have hown : note.IsOwn := h note List.mem_cons_self
    rw [eventsOf, List.map_cons, ← eventsOf, warningsIn, List.filter_cons]
    cases note with
    | event task level message extra =>
      obtain ⟨hlevel, -, hextra, -⟩ := hown
      rw [if_neg, List.filterMap_cons_none rfl]
      · exact hrest
      · rw [Note.eventFor, textAt?_level hextra]
        simp [hlevel]
    | warning task message =>
      have hkey : textAt? (eventFields target task "WARNING" message []) "task_id" =
          some (taskKey task) := rfl
      rw [Note.eventFor, textAt?_level List.not_mem_nil, hkey, textsUnder_warning, asFields_append]
      by_cases hsame : taskKey task = key
      · rw [if_pos (by simpa), if_pos hsame]
        exact congrArg (some (.str message) :: ·) hrest
      · rw [if_neg (by simpa), if_neg hsame]
        exact hrest

/-- **The events of a compilation tell its warnings.** -/
theorem warningsTold (target : String) (kept : Keyed (List String)) {notes : List Note}
    (h : ∀ note ∈ notes, note.IsOwn) :
    WarningsTold kept (notes.foldl Note.addTo kept) (eventsOf target notes) := fun key =>
  ⟨textsUnder key (notes.filterMap Note.warning?), find?_foldl_addTo notes kept key,
    warningsIn_eventsOf h key⟩

/-! ### Notes of a chain of steps -/

namespace Recorded

variable {α β : Type} {P : String → Prop}

/-- **Two steps that succeed**: the notes of the second come behind those of the first. -/
theorem yields_bind_notes {x : Recorded α} {f : α → Recorded β} {b : β}
    (h : (x >>= f).Yields P b) : ∃ a, x.Yields P a ∧ (f a).Yields P b ∧
      (x >>= f).notes = x.notes ++ (f a).notes := by
  obtain ⟨a, hx, hf⟩ := yields_bind.mp h
  exact ⟨a, hx, hf, bind_notes_of_ok hx.1⟩

/-- A plain step takes no notes. -/
theorem yields_lift_notes {x : Except Failure α} {f : α → Recorded β} {b : β}
    (h : ((liftM x : Recorded α) >>= f).Yields P b) : ∃ a, x = .ok a ∧ (f a).Yields P b ∧
      ((liftM x : Recorded α) >>= f).notes = (f a).notes := by
  obtain ⟨a, hx, hf, hnotes⟩ := yields_bind_notes h
  exact ⟨a, yields_lift.mp hx, hf, hnotes⟩

/-- A note that is taken under a condition. -/
theorem yields_log_when {p : Prop} [Decidable p] {task level message : String}
    {extra : Keyed Value} {y : Recorded β} {b : β}
    (h : (if p then log task level message extra >>= fun _ => y else y).Yields P b) :
    y.Yields P b ∧ (if p then log task level message extra >>= fun _ => y else y).notes =
      (if p then [Note.event task level message extra] else []) ++ y.notes := by
  split at h
  next hp =>
    obtain ⟨u, -, hy, hnotes⟩ := yields_bind_notes h
    rw [if_pos hp, if_pos hp]
    exact ⟨hy, hnotes⟩
  next hp =>
    rw [if_neg hp, if_neg hp]
    exact ⟨h, rfl⟩

/-- A plain step that is not always taken takes no notes. -/
theorem yields_unless_notes {p : Prop} [Decidable p] {x : Except Failure α}
    {y : Recorded β} {b : β}
    (h : (if p then y else (liftM x : Recorded α) >>= fun _ => y).Yields P b) : y.Yields P b ∧
      (if p then y else (liftM x : Recorded α) >>= fun _ => y).notes = y.notes := by
  split at h
  next hp =>
    rw [if_pos hp]
    exact ⟨h, rfl⟩
  next hp =>
    obtain ⟨a, -, hy, hnotes⟩ := yields_lift_notes h
    rw [if_neg hp]
    exact ⟨hy, hnotes⟩

/-! ### Steps that only warn -/

/-- All notes of a computation are warnings, whether it succeeds or not. -/
def OnlyWarns (x : Recorded α) : Prop :=
  ∀ note ∈ x.notes, ∃ task text, note = .warning task text ∧ IsCapitalized text

/-- No notes are taken. -/
theorem OnlyWarns.of_nil {x : Recorded α} (h : x.notes = []) : x.OnlyWarns := by
  rw [OnlyWarns, h]
  exact fun _ hnote => nomatch hnote

/-- A warning is noted. -/
theorem onlyWarns_warn {task text : String} (h : IsCapitalized text) :
    (warn task text).OnlyWarns := by
  intro note hnote
  exact ⟨task, text, List.mem_singleton.mp hnote, h⟩

/-- Two steps that only warn. -/
theorem OnlyWarns.bind {x : Recorded α} {f : α → Recorded β} (hx : x.OnlyWarns)
    (hf : ∀ a, (f a).OnlyWarns) : (x >>= f).OnlyWarns := by
  rcases x with ⟨notes, _ | a, digested⟩
  · exact hx
  · intro note hnote
    rw [bind_notes_of_ok rfl] at hnote
    exact (List.mem_append.mp hnote).elim (hx note) (hf a note)

/-- A choice between steps that only warn. -/
theorem OnlyWarns.ite {p : Prop} [Decidable p] {x y : Recorded α} (hx : x.OnlyWarns)
    (hy : y.OnlyWarns) : (if p then x else y).OnlyWarns := by
  split
  · exact hx
  · exact hy

/-- Warnings are notes that compilations take. -/
theorem OnlyWarns.own {x : Recorded α} (h : x.OnlyWarns) : ∀ note ∈ x.notes, note.IsOwn := by
  intro note hnote
  obtain ⟨task, text, rfl, htext⟩ := h note hnote
  exact htext

end Recorded

open Recorded

/-- A text behind a capital letter. -/
theorem isCapitalized_append {text : String} (h : IsCapitalized text) (later : String) :
    IsCapitalized (text ++ later) := by
  unfold IsCapitalized at h ⊢
  rw [String.toList_append]
  cases hchars : text.toList with
  | nil =>
    rw [hchars] at h
    cases h
  | cons first rest =>
    rw [hchars] at h
    exact h

/-- What an input is bound to. -/
theorem bound_onlyWarns {α : Type} (input : InputSpec) (given : Option α)
    (literal : String → α)
    (task : String) : (input.bound given literal task).OnlyWarns := by
  unfold InputSpec.bound
  split
  · exact .of_nil rfl
  · exact .of_nil rfl
  · refine .ite (.bind (onlyWarns_warn ?_) fun _ => .of_nil rfl) (.of_nil rfl)
    exact isCapitalized_append (isCapitalized_append (isCapitalized_append (by decide) _) _) _

/-- The texts that a caller gives. -/
theorem rootTexts_onlyWarns (c : Component) (arguments : Keyed Value) :
    (c.rootTexts arguments).OnlyWarns := by
  unfold Component.rootTexts
  refine .bind ?_ fun _ => .bind (.of_nil rfl) fun _ => .of_nil rfl
  generalize Keyed.keys arguments = names
  induction names with
  | nil => exact .of_nil rfl
  | cons name rest ih =>
    refine .bind (.ite (.of_nil rfl) (onlyWarns_warn ?_)) fun _ => ih
    exact isCapitalized_append (isCapitalized_append (by decide) _) _

/-! ### Parts of a registry -/

namespace Registry

variable {α : Type} {P : String → Prop} {record : α → Value} {r r' : Registry α}

/-- What interning leaves: the part is added under a name that no part has, and is new, or nothing
    is added. -/
theorem intern_entries {stem : Except Failure String} {part : α} {name : String} {isNew : Bool}
    (hyields : (r.intern record stem part).Yields P (name, isNew, r')) :
    isNew = true ∧ name ∉ Keyed.keys r.entries ∧ r'.entries = r.entries ++ [(name, part)] ∨
      isNew = false ∧ r'.entries = r.entries := by
  unfold intern at hyields
  obtain ⟨key, -, hyields⟩ := yields_bind.mp hyields
  obtain ⟨⟨given, names⟩, -, hyields⟩ := yields_bind.mp hyields
  dsimp only at hyields
  -- The name has a part already, or gets one now.
  split at hyields
  next hhas =>
    obtain ⟨rfl, hrest⟩ := yields_pure_pair hyields
    obtain ⟨rfl, rfl⟩ := Prod.mk.inj hrest
    exact .inr ⟨rfl, rfl⟩
  next hhas =>
    obtain ⟨rfl, hrest⟩ := yields_pure_pair hyields
    obtain ⟨rfl, rfl⟩ := Prod.mk.inj hrest
    rw [Keyed.has_iff_mem_keys] at hhas
    exact .inl ⟨rfl, hhas, rfl⟩

/-- The events with a message tell the names of the parts that were added, in their order and each
    once. -/
structure Told (message field : String) (events : List (Keyed Value)) (r r' : Registry α) :
    Prop where
  names : ∃ added, Keyed.keys r'.entries = Keyed.keys r.entries ++ added ∧
    reports message field events = asFields added
  nodup : (Keyed.keys r.entries).Nodup → (Keyed.keys r'.entries).Nodup

variable {message field : String} {events later : List (Keyed Value)} {r₁ r₂ : Registry α}

/-- Nothing is told, and no part is added. -/
theorem told_same (hevents : reports message field events = []) (h : r'.entries = r.entries) :
    Told message field events r r' where
  names := ⟨[], by rw [h, List.append_nil], hevents⟩
  nodup := by
    rw [h]
    exact id

/-- Parts are added one after another. -/
theorem Told.append (h : Told message field events r r₁)
    (h' : Told message field later r₁ r₂) :
    Told message field (events ++ later) r r₂ where
  names := by
    obtain ⟨added, hkeys, hreports⟩ := h.names
    obtain ⟨more, hkeys', hreports'⟩ := h'.names
    refine ⟨added ++ more, by rw [hkeys', hkeys, List.append_assoc], ?_⟩
    rw [reports_append, hreports, hreports', asFields_append]
  nodup := fun hnodup => h'.nodup (h.nodup hnodup)

/-- **A part that is interned**, and told of when it is new. -/
theorem told_intern {stem : Except Failure String} {part : α} {name : String} {isNew : Bool}
    (hyields : (r.intern record stem part).Yields P (name, isNew, r')) (target task level : String)
    (hfield : field ≠ "message") :
    Told message field
      (eventsOf target (if isNew then [.event task level message [(field, .str name)]] else []))
      r r' := by
  rcases intern_entries hyields with ⟨rfl, hnew, hentries⟩ | ⟨rfl, hentries⟩
  · refine ⟨⟨[name], ?_, reports_event hfield⟩, fun hnodup => ?_⟩
    · rw [hentries, Keyed.keys_append]
      rfl
    · rw [hentries, Keyed.keys_append]
      exact nodup_concat hnodup hnew
  · exact told_same rfl hentries

end Registry
end PipelineCompiler
