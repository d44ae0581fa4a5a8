import PipelineCompiler.Proofs.Argo.Plain
import PipelineCompiler.Proofs.Config.Overlay
import PipelineCompiler.Proofs.Json.Held
import PipelineCompiler.Proofs.Vertex.Plain

namespace PipelineCompiler

/-!
# Every context has the settings of its target

Whatever overrides a context is made with, all settings of its target are there and have the types
that they have by default.  The texts in them are whole, because the context has a digest.

* `create_eq_ok` — what is known of a new context;
* `Settings.Shaped`, `exists_shaped` — settings with the shape of a section of the defaults;
* `Argo.exists_complete`, `Vertex.exists_complete` — the settings of both targets are complete.
-/

open Config Text

variable {target : String} {overrides metadata : Value} {context : Context}

/-- A new context has a target and a configuration that is loaded and has a digest. -/
theorem create_eq_ok (h : (Context.create target overrides metadata).result = .ok context) :
    context.target = target ∧ load none overrides = .ok context.config ∧
      ∃ hash, configHash context.config = .ok hash := by
  have hyields := Recorded.yields_true h
  unfold Context.create at hyields
  obtain ⟨config, hconfig, hyields⟩ := Recorded.yields_bind.mp hyields
  obtain ⟨entries, -, hyields⟩ := Recorded.yields_bind.mp hyields
  obtain ⟨hash, hhash, hyields⟩ := Recorded.yields_bind.mp hyields
  obtain ⟨_, -, hyields⟩ := Recorded.yields_bind.mp hyields
  obtain rfl := Recorded.yields_pure.mp hyields
  exact ⟨rfl, Recorded.yields_lift.mp hconfig, hash, Recorded.yields_lift.mp hhash⟩

/-! ### Sections -/

/-- Settings with the shape of a section of the defaults: what is set there is set, to a value of
    the same type, and texts in the settings are whole. -/
structure Settings.Shaped (s : Settings) (defaults : Keyed Value) : Prop where
  typed : ∀ name v, Keyed.find? defaults name = some v → v.typeName ≠ "NoneType" →
    ∃ found : Value, s.value name = .ok found.bare ∧ found.typeName = v.typeName
  whole : ∀ name found, s.value name = .ok found → ∀ text, found.Holds text → Whole text

/-- What a field holds is held by the mapping. -/
theorem holds_of_field? {entries : Value.Entries} {name text : String} {v : Value}
    (h : Value.field? entries name = some v) (hheld : v.Holds text) :
    (Value.map entries).Holds text := by
  -- By induction on the entries, the first of which may have the field.
  induction entries with
  | nil => cases h
  | cons entry rest ih =>
    obtain ⟨key, w⟩ := entry
    have hrest : Value.field? rest name = some v → (Value.map ((key, w) :: rest)).Holds text := by
      intro h
      cases ih h with
      | entry mem held => exact .entry (List.mem_cons_of_mem _ mem) held
    cases key with
    | str other =>
      rw [Value.field?] at h
      split at h
      · obtain rfl := Option.some.inj h
        exact .entry List.mem_cons_self hheld
      · exact hrest h
    | _ => exact hrest h

/-- **The settings of a new context** have the shape of the section of their target. -/
theorem exists_shaped (h : (Context.create target overrides metadata).result = .ok context)
    {sections defaults : Keyed Value} (hdefaults : Config.defaults = .ofFields sections)
    (hsection : Keyed.find? sections target = some (.ofFields defaults)) :
    ∃ s, context.settings = .ok s ∧ s.Shaped defaults := by
  obtain ⟨rfl, hload, hash, hhash⟩ := create_eq_ok h
  obtain ⟨hover, config, hconfig⟩ := load_overlaid hload
  rw [hconfig] at hover
  obtain ⟨found, settings, hfound, hsettings, hoverSection⟩ :=
    exists_section hover hdefaults context.target hsection
  refine ⟨{ entries := settings }, ?_, fun name v hfield hv => ?_, fun name setting hsetting text
    hheld => ?_⟩
  -- The section of the target is there since it has been there in the defaults, and overlaying
  -- keeps the types of settings.
  · unfold Context.settings
    rw [hconfig]
    simp only [hfound.field?, Option.map_some, hsettings]
  · obtain ⟨_, setting, hmap, hsetting, hoverSetting⟩ :=
      hoverSection.field rfl (.ofFields hfield)
    obtain rfl := Value.map.inj (hsettings.symm.trans hmap)
    exact ⟨setting, by rw [Settings.value, hsetting.field?], hoverSetting.typeName hv⟩
  · unfold Settings.value at hsetting
    split at hsetting
    next v hv =>
      obtain rfl := Except.ok.inj hsetting
      have hinner : found.bare.Holds text := by
        rw [hsettings]
        exact holds_of_field? hv (.of_bare hheld)
      refine whole_of_configHash hhash ?_
      rw [hconfig]
      exact holds_of_field? hfound.field? (.of_bare hinner)
    next => cases hsetting

namespace Settings.Shaped

variable {s : Settings} {defaults : Keyed Value} (h : s.Shaped defaults) (name : String)
include h

/-- A setting that is a text by default is a whole text. -/
theorem exists_text {default : String}
    (hdefault : Keyed.find? defaults name = some (.str default)) :
    ∃ t, s.value name = .ok (.str t) ∧ s.text name = .ok t ∧ Whole t := by
  obtain ⟨found, hfound, htype⟩ := h.typed name _ hdefault (by simp [Value.typeName])
  obtain ⟨t, ht⟩ := exists_str htype
  rw [ht] at hfound
  exact ⟨t, hfound, by rw [Settings.text, hfound]; rfl, h.whole name _ hfound t .str⟩

/-- A setting that is a length by default is a length. -/
theorem exists_length {default : Int} (hdefault : Keyed.find? defaults name = some (.int default)) :
    ∃ limit, s.length name = .ok (some limit) := by
  obtain ⟨found, hfound, htype⟩ := h.typed name _ hdefault (by simp [Value.typeName])
  obtain ⟨limit, hlimit⟩ := exists_int htype
  rw [hlimit] at hfound
  exact ⟨limit, by rw [Settings.length, hfound]; rfl⟩

/-- A setting that is a mapping by default is a mapping. -/
theorem exists_mapping {default : Keyed Value}
    (hdefault : Keyed.find? defaults name = some (.ofFields default)) :
    ∃ stated entries, s.value name = .ok stated ∧ stated.mappingOf = .ok entries := by
  obtain ⟨found, hfound, htype⟩ :=
    h.typed name _ hdefault (by simp [Value.ofFields, Value.typeName])
  obtain ⟨entries, hentries⟩ := exists_map htype
  rw [hentries] at hfound
  exact ⟨.map entries, entries, hfound, rfl⟩

end Settings.Shaped

/-! ### Targets -/

/-- **The settings for workflows are complete** in every context. -/
theorem Argo.exists_complete
    (h : (Context.create "argo" overrides metadata).result = .ok context) :
    ∃ s, context.settings = .ok s ∧ Complete s := by
  obtain ⟨s, hsettings, hshaped⟩ := exists_shaped h rfl rfl
  obtain ⟨image, himage, -, hwhole⟩ := hshaped.exists_text "converter_image" rfl
  obtain ⟨inputs, -, hinputs⟩ := hshaped.exists_text "container_inputs_dir" rfl
  obtain ⟨outputs, -, houtputs⟩ := hshaped.exists_text "container_outputs_dir" rfl
  obtain ⟨file, -, hfile⟩ := hshaped.exists_text "io_file_name" rfl
  obtain ⟨limit, hlimit⟩ := hshaped.exists_length "max_generate_name_length" rfl
  -- All fields are settings, and each is read off the configuration under its own key.
  refine ⟨s, hsettings, ?_⟩
  exact {
    length := hshaped.exists_length "max_name_length" rfl
    inputs := ⟨inputs, hinputs⟩
    outputs := ⟨outputs, houtputs⟩
    file := ⟨file, hfile⟩
    image := ⟨.str image, himage, .str hwhole⟩
    runs := ⟨some limit, hlimit⟩
    annotations := hshaped.exists_mapping "workflow_annotations" rfl }

/-- **The settings for jobs are complete** in every context. -/
theorem Vertex.exists_complete
    (h : (Context.create "vertex" overrides metadata).result = .ok context) :
    ∃ s, context.settings = .ok s ∧ Complete s := by
  obtain ⟨s, hsettings, hshaped⟩ := exists_shaped h rfl rfl
  obtain ⟨image, himage, -, hwhole⟩ := hshaped.exists_text "converter_image" rfl
  obtain ⟨version, hversion, -⟩ := hshaped.exists_text "sdk_version" rfl
  obtain ⟨schema, hschema, -⟩ := hshaped.exists_text "schema_version" rfl
  obtain ⟨enabled, henabled, -⟩ :=
    hshaped.typed "enable_cache" (.bool true) rfl (by simp [Value.typeName])
  refine ⟨s, hsettings, ?_⟩
  exact {
    length := hshaped.exists_length "max_name_length" rfl
    image := ⟨.str image, himage, .str hwhole⟩
    caching := ⟨enabled.bare.isTruthy, by rw [caching, henabled]; rfl⟩
    sdkVersion := ⟨.str version, hversion⟩
    schemaVersion := ⟨.str schema, hschema⟩ }

end PipelineCompiler
