import TagGrammar.Config.Toml
import TagGrammar.Proofs.Config.Nearest
import TagGrammar.Proofs.Config.Walk

namespace TagGrammar.Config

/-- What is read, and the path by which it is known. A path that is given leads there without regard to
what could be discovered. -/
inductive Source (fs : FileSystem) (directory : List String) : Option String → String → Entry → Prop
  | given {path : String} {entry : Entry} (leads : fs.Leads directory path entry) :
    Source fs directory (some path) path entry
  | nearest {place : List String} {entry : Entry}
      (discovered : Discovers fs directory (some (place, entry))) :
    Source fs directory none (absolutePath place) entry

/-- What reading an entry ends in, where `forced` goes before the setting of a text. An entry without a
text is a directory or a file of other bytes than UTF-8. -/
inductive Reads (parse : Parser) (name : String) (forced : Option Bool) :
    Entry → Except ConfigError Config → Prop
  | unreadable {entry : Entry} (no_text : ∀ text : String, entry ≠ .file text.toUTF8) :
    Reads parse name forced entry (.error .io)
  | unparsable {text : String} (refused : parse text = none) :
    Reads parse name forced (.file text.toUTF8) (.error .parse)
  | settings {text : String} {settings : Settings} (parsed : parse text = some settings) :
    Reads parse name forced (.file text.toUTF8) (.ok ⟨(forced.or settings.debug).getD false, some name⟩)

/-- What loading ends in: nothing is read where a path that is given leads nowhere or, without a path,
where nothing is to be discovered, and otherwise the one source decides. -/
inductive Loads (parse : Parser) (fs : FileSystem) (directory : List String) (forced : Option Bool) :
    Option String → Except ConfigError Config → Prop
  | missing {path : String} (nowhere : ∀ entry, ¬fs.Leads directory path entry) :
    Loads parse fs directory forced (some path) (.error (.notFound path))
  | initial (bare : Discovers fs directory none) :
    Loads parse fs directory forced none (.ok ⟨forced.getD false, none⟩)
  | read {path : Option String} {name : String} {entry : Entry} {result : Except ConfigError Config}
      (source : Source fs directory path name entry) (reads : Reads parse name forced entry result) :
    Loads parse fs directory forced path result

section Loading

variable {parse : Parser} {fs : FileSystem} {directory : List String} {path : Option String}
  {overrides : Option Overrides} {name : String} {entry : Entry} {result : Except ConfigError Config}

theorem Source.find_eq (source : Source fs directory path name entry) :
    find parse fs directory path = read parse name entry := by
  cases source with
  | given leads => rw [find, FileSystem.locate?_eq_some_iff.mpr leads]
  | nearest discovered => rw [find, discover_eq_iff.mpr discovered]

/-- The path by which a source is known leads to it, wherever it is followed from. -/
theorem Source.leads (source : Source fs directory path name entry) : fs.Leads directory name entry := by
  cases source with
  | given leads => exact leads
  | nearest discovered =>
    cases discovered with
    | nearest _ found => exact FileSystem.leads_absolutePath found

theorem read_of_no_text (no_text : ∀ text : String, entry ≠ .file text.toUTF8) :
    read parse name entry = .error .io := by
  cases entry with
  | directory => rfl
  | file content =>
    have undecoded : String.fromUTF8? content = none := by
      apply dif_neg
      intro valid
      exact no_text (.fromUTF8 content valid) rfl
    rw [read, undecoded]

theorem read_text (parse : Parser) (name text : String) :
    read parse name (.file text.toUTF8) =
      match parse text with
      | none => .error .parse
      | some settings => .ok ⟨settings.debug.getD false, some name⟩ := by
  have decoded : String.fromUTF8? text.toUTF8 = some text := dif_pos text.isValidUTF8
  rw [read, decoded]
  rfl

theorem override_eq (overrides : Option Overrides) (set : Option Bool) (path : Option String) :
    override overrides ⟨set.getD false, path⟩ =
      ⟨((overrides.bind Overrides.debug).or set).getD false, path⟩ := by
  rw [override]
  cases overrides.bind Overrides.debug <;> rfl

theorem Reads.map_read_eq (reads : Reads parse name (overrides.bind Overrides.debug) entry result) :
    (read parse name entry).map (override overrides) = result := by
  cases reads with
  | unreadable no_text =>
    rw [read_of_no_text no_text]
    rfl
  | unparsable refused =>
    rw [read_text, refused]
    rfl
  | settings parsed =>
    rw [read_text, parsed]
    exact congrArg Except.ok (override_eq overrides _ _)

theorem Loads.load_eq (loads : Loads parse fs directory (overrides.bind Overrides.debug) path result) :
    load parse fs directory path overrides = result := by
  cases loads with
  | @missing path nowhere =>
    have absent : fs.locate? directory path = none := by
      cases found : fs.locate? directory path with
      | none => rfl
      | some entry => exact absurd (FileSystem.locate?_eq_some_iff.mp found) (nowhere entry)
    rw [load, find, absent]
    rfl
  | initial bare =>
    rw [load, find, discover_eq_iff.mpr bare]
    have defaults := override_eq overrides none none
    rw [Option.or_none] at defaults
    exact congrArg Except.ok defaults
  | read source reads => rw [load, source.find_eq, reads.map_read_eq]

theorem exists_reads (parse : Parser) (name : String) (forced : Option Bool) (entry : Entry) :
    ∃ result, Reads parse name forced entry result := by
  by_cases written : ∃ text : String, entry = .file text.toUTF8
  · obtain ⟨text, rfl⟩ := written
    cases parsed : parse text with
    | none => exact ⟨_, .unparsable parsed⟩
    | some settings => exact ⟨_, .settings parsed⟩
  · exact ⟨_, .unreadable fun text same => written ⟨text, same⟩⟩

theorem exists_loads (parse : Parser) (fs : FileSystem) (directory : List String) (forced : Option Bool)
    (path : Option String) : ∃ result, Loads parse fs directory forced path result := by
  cases path with
  | some path =>
    by_cases found : ∃ entry, fs.Leads directory path entry
    · obtain ⟨entry, leads⟩ := found
      obtain ⟨result, reads⟩ := exists_reads parse path forced entry
      exact ⟨result, .read (.given leads) reads⟩
    · exact ⟨_, .missing (not_exists.mp found)⟩
  | none =>
    obtain ⟨found, discovered⟩ : ∃ found, Discovers fs directory found := ⟨_, discovers fs directory⟩
    cases found with
    | none => exact ⟨_, .initial discovered⟩
    | some source =>
      obtain ⟨result, reads⟩ := exists_reads parse (absolutePath source.1) forced source.2
      exact ⟨result, .read (.nearest discovered) reads⟩

/-- Whatever reads the texts, loading reads what the path that is given leads to and nothing else or,
without one, the nearest entry and none further out, whatever becomes of it. An override goes before
the setting, and mends no failure. The path that is then known leads to what was read. -/
theorem load_eq_iff_loads (parse : Parser) (fs : FileSystem) (directory : List String)
    (path : Option String) (overrides : Option Overrides) (result : Except ConfigError Config) :
    (load parse fs directory path overrides = result ↔
      Loads parse fs directory (overrides.bind Overrides.debug) path result) ∧
    ∀ name entry, Source fs directory path name entry → fs.Leads directory name entry := by
  refine ⟨⟨?_, Loads.load_eq⟩, fun name entry source => source.leads⟩
  intro loaded
  obtain ⟨result', loads⟩ := exists_loads parse fs directory (overrides.bind Overrides.debug) path
  rw [loads.load_eq] at loaded
  cases loaded
  exact loads

/-- Paths lead on from the root, which is its own parent, or from the current directory, and the file
there is read although there is a nearer one, which is not well-formed. -/
theorem load_given_paths :
    let text := "[templates]\ndebug = true\n"
    let fs := FileSystem.ofList
      [(["conf", "x.toml"], .file text.toUTF8), (["app", fileName], .file "[".toUTF8)]
    load .toml fs ["app"] (some "/../conf/x.toml") none = .ok ⟨true, some "/../conf/x.toml"⟩ ∧
    load .toml fs ["app"] (some "../conf//x.toml") (some ⟨some false⟩) =
      .ok ⟨false, some "../conf//x.toml"⟩ ∧
    load .toml fs ["app"] (some "x.toml") none = .error (.notFound "x.toml") ∧
    load .toml fs ["app"] none (some ⟨some false⟩) = .error .parse := by
  intro text fs
  have parsed : Parser.toml text = some ⟨some true⟩ := by decide +kernel
  have refused : Parser.toml "[" = none := by decide +kernel
  have app : fs.get? ([] ++ ["app"]) = some .directory := rfl
  have conf : (fs.get? ([] ++ ["conf"])).isSome := rfl
  have file : (fs.get? (["conf"] ++ ["x.toml"])).isSome := rfl
  have inside : fs.get? (["conf"] ++ ["x.toml"]) = some (.file text.toUTF8) := rfl
  have walk : fs.Walk ["conf"] ["x.toml"] ["conf", "x.toml"] := .step (.down file) .done
  have from_root : fs.Leads ["app"] "/../conf/x.toml" (.file text.toUTF8) :=
    .absolute (.step .root (.step (.down conf) walk)) inside
  have from_app : fs.Leads ["app"] "../conf//x.toml" (.file text.toUTF8) :=
    .relative (by decide) (.step (.up app) (.step (.down conf) (.step (.stay rfl (.inl rfl)) walk))) inside
  have nowhere : ∀ entry, ¬fs.Leads ["app"] "x.toml" entry := by
    intro entry leads
    have found : fs.locate? ["app"] "x.toml" = some entry := FileSystem.locate?_eq_some_iff.mpr leads
    cases found
  have nearest : discover fs ["app"] = some (["app", fileName], .file "[".toUTF8) := rfl
  refine ⟨?_, ?_, ?_, ?_⟩
  · apply (load_eq_iff_loads _ _ _ _ _ _).1.mpr
    exact .read (.given from_root) (.settings parsed)
  · apply (load_eq_iff_loads _ _ _ _ _ _).1.mpr
    exact .read (.given from_app) (.settings parsed)
  · apply (load_eq_iff_loads _ _ _ _ _ _).1.mpr
    exact .missing nowhere
  · apply (load_eq_iff_loads _ _ _ _ _ _).1.mpr
    exact .read (.nearest (discover_eq_iff.mp nearest)) (.unparsable refused)

end Loading

end TagGrammar.Config
