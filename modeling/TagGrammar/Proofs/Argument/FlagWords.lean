import TagGrammar.Argument.Offer
import TagGrammar.Proofs.Text.Lowered

namespace TagGrammar

namespace FlagWords

variable {w : FlagWords} {bit bit' : String}

theorem normalize_normalize (w : FlagWords) (bit : String) :
    w.normalize (w.normalize bit) = w.normalize bit := by
  unfold normalize
  split
  · rfl
  · exact Text.lowercase_lowercase bit

theorem among_iff {words : List String} :
    w.among words bit = true ↔ w.normalize bit ∈ words.map w.normalize := by
  simp [among, List.mem_map]

theorem among_congr (same : w.normalize bit = w.normalize bit') (words : List String) :
    w.among words bit = w.among words bit' := by
  unfold among
  rw [same]

theorem meaning?_congr (same : w.normalize bit = w.normalize bit') :
    w.meaning? bit = w.meaning? bit' := by
  unfold meaning?
  rw [among_congr same, among_congr same]

theorem meaning?_eq_none_iff : w.meaning? bit = Option.none ↔ w.normalize bit ∉ w.allowed := by
  rw [allowed, List.map_append, List.mem_append, ← among_iff, ← among_iff, meaning?]
  split
  · simp_all
  · split <;> simp_all

theorem exists_meaning_iff : (∃ truth, w.meaning? bit = some truth) ↔ w.normalize bit ∈ w.allowed := by
  rw [← Option.isSome_iff_exists, Option.isSome_iff_ne_none, ne_eq, meaning?_eq_none_iff,
    Classical.not_not]

/-- The words listed for a message are their own normal forms. -/
theorem normalize_of_mem_allowed {word : String} (listed : word ∈ w.allowed) : w.normalize word = word := by
  obtain ⟨given, _, rfl⟩ := List.mem_map.mp listed
  exact w.normalize_normalize given

end FlagWords

namespace Leaf

variable {l : Leaf} {w : FlagWords} {kwargs : Kwargs} {bit : String}

/-- A flag with words on both sides that excludes nothing and holds nothing yet. -/
structure OpenFlag (l : Leaf) (w : FlagWords) (kwargs : Kwargs) : Prop where
  kind : l.kind = .flag w
  trues : w.trueValues ≠ []
  falses : w.falseValues ≠ []
  free : l.header.exclude = []
  unfilled : kwargs.contains l.name = false

theorem OpenFlag.excludes_eq_false (flag : l.OpenFlag w kwargs) (bit : String) :
    l.excludes bit = false := by
  rw [excludes, flag.kind, flag.free]
  rfl

theorem OpenFlag.offer_of_meaning (flag : l.OpenFlag w kwargs) {truth : Bool}
    (means : w.meaning? bit = some truth) (tagname : String) :
    (Argument.leaf l).offer tagname bit kwargs =
      .accepted (kwargs.insert l.name (.fixed (.bool truth))) := by
  rw [Argument.offer, offer, flag.kind]
  dsimp only
  rw [offerFlag, flag.unfilled, means]
  dsimp only
  rw [store, flag.excludes_eq_false]
  rfl

theorem OpenFlag.offer_of_no_meaning (flag : l.OpenFlag w kwargs)
    (unknown : w.meaning? bit = none) (tagname : String) :
    (Argument.leaf l).offer tagname bit kwargs =
      .failed (.invalidFlag tagname l.name bit w.allowed) := by
  have both : w.twoSided = true := by simp [FlagWords.twoSided, flag.trues, flag.falses]
  rw [Argument.offer, offer, flag.kind]
  dsimp only
  rw [offerFlag, flag.unfilled, unknown]
  dsimp only
  rw [both, flag.excludes_eq_false]
  rfl

end Leaf

namespace Argument

variable {l : Leaf} {w : FlagWords} {kwargs : Kwargs}

/-- An open flag takes a bit or fails with a list of words. It takes each word of that list, and a bit
exactly when the list has it, in small letters unless case counts; bits that differ in case alone then
fare alike. -/
theorem flag_takes_listed_words (flag : l.OpenFlag w kwargs) (tagname : String) :
    let offered (bit : String) := (leaf l).offer tagname bit kwargs
    let taken (truth : Bool) := Offer.accepted (kwargs.insert l.name (.fixed (.bool truth)))
    (∀ bit, (∃ truth, offered bit = taken truth) ∨
      offered bit = .failed (.invalidFlag tagname l.name bit w.allowed)) ∧
    (∀ bit tag name actual words, offered bit = .failed (.invalidFlag tag name actual words) →
      ∀ word ∈ words, ∃ truth, offered word = taken truth) ∧
    (∀ bit, (∃ truth, offered bit = taken truth) ↔
      (if w.caseSensitive then bit else Text.lowercase bit) ∈ w.allowed) ∧
    (w.caseSensitive = false → ∀ bit bit', Text.lowercase bit = Text.lowercase bit' →
      (∃ truth, offered bit = taken truth ∧ offered bit' = taken truth) ∨
      ∃ e e', offered bit = .failed e ∧ offered bit' = .failed e') := by
  intro offered taken
  have known {bit : String} {truth : Bool} (means : w.meaning? bit = some truth) :
      offered bit = taken truth := flag.offer_of_meaning means tagname
  have unknown {bit : String} (nothing : w.meaning? bit = none) :
      offered bit = .failed (.invalidFlag tagname l.name bit w.allowed) :=
    flag.offer_of_no_meaning nothing tagname
  have takes_iff (bit : String) :
      (∃ truth, offered bit = taken truth) ↔ w.normalize bit ∈ w.allowed := by
    rw [← FlagWords.exists_meaning_iff]
    constructor
    · rintro ⟨truth, took⟩
      cases means : w.meaning? bit with
      | some truth' => exact ⟨truth', rfl⟩
      | none => rw [unknown means] at took; cases took
    · rintro ⟨truth, means⟩
      exact ⟨truth, known means⟩
  have answers (bit : String) : (∃ truth, offered bit = taken truth) ∨
      offered bit = .failed (.invalidFlag tagname l.name bit w.allowed) := by
    cases means : w.meaning? bit with
    | some truth => exact .inl ⟨truth, known means⟩
    | none => exact .inr (unknown means)
  refine ⟨answers, fun bit tag name actual words failed word listed => ?_, takes_iff,
    fun uncased bit bit' same => ?_⟩
  · rcases answers bit with ⟨truth, took⟩ | refused
    · rw [took] at failed; cases failed
    · rw [refused] at failed
      cases failed
      rw [takes_iff, FlagWords.normalize_of_mem_allowed listed]
      exact listed
  · have alike : w.meaning? bit = w.meaning? bit' := by
      apply FlagWords.meaning?_congr
      rw [FlagWords.normalize, FlagWords.normalize, uncased]
      exact same
    cases means : w.meaning? bit with
    | some truth => exact .inl ⟨truth, known means, known (alike ▸ means)⟩
    | none => exact .inr ⟨_, _, unknown means, unknown (alike ▸ means)⟩

theorem flag_takes_listed_sigma :
    let w : FlagWords := ⟨["ΟΔΟΣ", "\u0130"], ["Off"], false⟩
    let l : Leaf := ⟨.ofName "safe", .flag w⟩
    let words := ["οδος", "i\u0307", "off"]
    l.OpenFlag w .empty ∧
      (leaf l).offer "t" "maybe" .empty = .failed (.invalidFlag "t" "safe" "maybe" words) ∧
      ∀ word ∈ words, ∃ truth, (leaf l).offer "t" word .empty =
        .accepted (Table.insert .empty "safe" (.fixed (.bool truth))) := by
  intro w l words
  have flag : l.OpenFlag w .empty := ⟨rfl, by decide, by decide, rfl, rfl⟩
  have listed : w.allowed = words := by decide +kernel
  have refused : (leaf l).offer "t" "maybe" .empty =
      .failed (.invalidFlag "t" "safe" "maybe" words) := by
    rw [← listed]
    exact flag.offer_of_no_meaning (by decide +kernel) "t"
  exact ⟨flag, refused, (flag_takes_listed_words flag "t").2.1 _ _ _ _ _ refused⟩

end Argument

end TagGrammar
