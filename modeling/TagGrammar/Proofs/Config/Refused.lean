import TagGrammar.Proofs.Config.Loaded

namespace TagGrammar.Config

/-- A value under `templates` that settings cannot be read from. -/
inductive Faulty : Toml.Value → Prop
  | unknown {origin : Toml.Origin} {children : Toml.Children} {child : String × Toml.Value}
      (member : child ∈ children) (other : child.1 ≠ "debug") : Faulty (.table origin children)
  | setting {origin : Toml.Origin} {children : Toml.Children} {v : Toml.Value}
      (found : Toml.find? "debug" children = some v) (no_truth : ∀ b, v ≠ .bool b) :
      Faulty (.table origin children)
  | first {v : Toml.Value} {rest : List Toml.Value} (no_truth : ∀ b, v ≠ .bool b) :
      Faulty (.array (v :: rest))
  | kind {v : Toml.Value} (no_table : ∀ origin children, v ≠ .table origin children)
      (no_array : ∀ items, v ≠ .array items) : Faulty v

/-- What a well-formed document is refused for. The names of its other keys are no such thing. -/
inductive Refused (root : Toml.Children) : Prop
  | range {child : String × Toml.Value} (member : child ∈ root) (other : child.1 ≠ "templates")
      (outside : child.2.inRange = false) : Refused root
  | templates {v : Toml.Value} (found : Toml.find? "templates" root = some v) (faulty : Faulty v) :
      Refused root

theorem debugAmong_eq_none_iff {origin : Toml.Origin} {children : Toml.Children} :
    debugAmong children = none ↔ Faulty (.table origin children) := by
  unfold debugAmong
  cases known : children.all (·.1 = "debug") with
  | false =>
    obtain ⟨child, member, other⟩ := List.all_eq_false.mp known
    exact ⟨fun _ => .unknown member (by simpa using other), fun _ => rfl⟩
  | true =>
    have named : ∀ child ∈ children, child.1 = "debug" := by simpa using known
    rw [if_pos rfl]
    constructor
    · intro refused
      split at refused
      · cases refused
      · cases refused
      · rename_i no_truth found
        exact .setting found fun b truth => no_truth b truth
    · intro faulty
      cases faulty with
      | unknown member other => exact absurd (named _ member) other
      | setting found no_truth =>
        rw [found]
        split
        · rename_i absent
          cases absent
        · rename_i truth
          exact absurd (Option.some.inj truth) (no_truth _)
        · rfl
      | kind no_table no_array => exact absurd rfl (no_table _ _)

theorem debugFirst_eq_none_iff {items : List Toml.Value} :
    debugFirst items = none ↔ Faulty (.array items) := by
  unfold debugFirst
  constructor
  · intro refused
    split at refused
    · cases refused
    · cases refused
    · rename_i no_truth
      exact .first no_truth
  · intro faulty
    cases faulty with
    | first no_truth =>
      split
      · rename_i empty
        cases empty
      · rename_i truth
        exact absurd (List.cons.inj truth).1 (no_truth _)
      · rfl
    | kind no_table no_array => exact absurd rfl (no_array _)

theorem ofDocument?_eq_none_iff {root : Toml.Children} : Settings.ofDocument? root = none ↔ Refused root := by
  unfold Settings.ofDocument?
  cases sound : root.all fun child => child.1 = "templates" || child.2.inRange with
  | false =>
    obtain ⟨child, member, wrong⟩ := List.all_eq_false.mp sound
    simp only [Bool.or_eq_true, decide_eq_true_eq, not_or, Bool.not_eq_true] at wrong
    exact ⟨fun _ => .range member wrong.1 wrong.2, fun _ => rfl⟩
  | true =>
    rw [if_pos rfl]
    have judged : Refused root ↔ ∃ v, Toml.find? "templates" root = some v ∧ Faulty v := by
      refine ⟨fun refused => ?_, fun ⟨v, found, faulty⟩ => .templates found faulty⟩
      cases refused with
      | range member other outside =>
        have kept := List.all_eq_true.mp sound _ member
        simp [other, outside] at kept
      | templates found faulty => exact ⟨_, found, faulty⟩
    rw [judged]
    cases Toml.find? "templates" root with
    | none => simp
    | some v =>
      simp only [Option.some.injEq, exists_eq_left']
      cases v with
      | table origin children => exact debugAmong_eq_none_iff
      | array items => exact debugFirst_eq_none_iff
      | _ => exact ⟨fun _ => .kind nofun nofun, fun _ => rfl⟩

section Loading

variable {fs : FileSystem} {directory : List String} {path : Option String} {name text : String}
  {root : Toml.Children}

theorem Source.load_text (source : Source fs directory path name (.file text.toUTF8)) (parse : Parser)
    (overrides : Option Overrides) :
    load parse fs directory path overrides =
      match parse text with
      | none => .error .parse
      | some settings => .ok (override overrides ⟨settings.debug.getD false, some name⟩) := by
  rw [load, source.find_eq, read_text]
  cases parse text <;> rfl

/-- Whatever the syntax of documents, a file that holds a well-formed one is refused, whatever the
overrides, exactly for a fault under `templates` or for a number elsewhere that is out of range, and is
loaded otherwise. So a key of the table `templates` other than `debug` is always refused, and beside
`templates` any key may stand. -/
theorem load_refuses_iff {document? : String → Option Toml.Children}
    (source : Source fs directory path name (.file text.toUTF8)) (parsed : document? text = some root)
    (overrides : Option Overrides) :
    (load (.ofDocuments document?) fs directory path overrides = .error .parse ↔ Refused root) ∧
    (¬Refused root → ∃ c, load (.ofDocuments document?) fs directory path overrides = .ok c) ∧
    ∀ origin children, Toml.find? "templates" root = some (.table origin children) →
      (∃ child ∈ children, child.1 ≠ "debug") →
      load (.ofDocuments document?) fs directory path overrides = .error .parse := by
  have result := source.load_text (.ofDocuments document?) overrides
  have settled : Parser.ofDocuments document? text = Settings.ofDocument? root := by
    rw [Parser.ofDocuments, parsed, Option.bind_some]
  rw [settled] at result
  have refused : load (.ofDocuments document?) fs directory path overrides = .error .parse ↔
      Refused root := by
    rw [result, ← ofDocument?_eq_none_iff]
    cases Settings.ofDocument? root <;> simp
  refine ⟨refused, fun accepted => ?_, ?_⟩
  · rw [← ofDocument?_eq_none_iff, ← ne_eq, Option.ne_none_iff_exists'] at accepted
    obtain ⟨settings, given⟩ := accepted
    rw [result, given]
    exact ⟨_, rfl⟩
  · intro origin children found unknown
    obtain ⟨child, member, other⟩ := unknown
    exact refused.mpr (.templates found (.unknown member other))

theorem misspelt_key_refused :
    let text := "[templates]\ndebg = true\n"
    let fs := FileSystem.ofList [(["customtags.toml"], .file text.toUTF8)]
    ∃ root, Toml.parse? text = some root ∧
      Source fs [] none "/customtags.toml" (.file text.toUTF8) ∧
      load .toml fs [] none none = .error .parse ∧ Refused root := by
  intro text fs
  obtain ⟨root, parsed⟩ : ∃ root, Toml.parse? text = some root :=
    Option.isSome_iff_exists.mp (by decide +kernel)
  have found : discover fs [] = some (["customtags.toml"], .file text.toUTF8) := rfl
  have source : Source fs [] none "/customtags.toml" (.file text.toUTF8) :=
    .nearest (discover_eq_iff.mp found)
  have unread : Parser.toml text = none := by decide +kernel
  have refused : load .toml fs [] none none = .error .parse := by
    rw [source.load_text, unread]
  exact ⟨root, parsed, source, refused, (load_refuses_iff source parsed none).1.mp refused⟩

theorem misspelt_section_accepted :
    let text := "[template]\ndebug = true\n"
    let fs := FileSystem.ofList [(["customtags.toml"], .file text.toUTF8)]
    (∃ root, Toml.parse? text = some root ∧ ∃ child ∈ root, child.1 ≠ "templates") ∧
      load .toml fs [] none none = .ok ⟨false, some "/customtags.toml"⟩ := by
  intro text fs
  have named : (Toml.parse? text).any (·.any (·.1 ≠ "templates")) = true := by decide +kernel
  obtain ⟨root, parsed, other⟩ := (Option.any_eq_true _ _).mp named
  obtain ⟨child, member, other⟩ := List.any_eq_true.mp other
  have found : discover fs [] = some (["customtags.toml"], .file text.toUTF8) := rfl
  have source : Source fs [] none "/customtags.toml" (.file text.toUTF8) :=
    .nearest (discover_eq_iff.mp found)
  have unset : Parser.toml text = some ⟨none⟩ := by decide +kernel
  refine ⟨⟨root, parsed, child, member, by simpa using other⟩, ?_⟩
  rw [source.load_text, unset]
  rfl

end Loading

end TagGrammar.Config
