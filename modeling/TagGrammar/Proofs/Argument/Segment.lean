import TagGrammar.Proofs.Argument.Defaults

namespace TagGrammar

open Kwargs (AgreeOn)

/-- The argument has stored these bits, and nothing where there are none. -/
def Leaf.Got (kwargs : Kwargs) (l : Leaf) (bits : List String) : Prop :=
  (kwargs.get? l.name = none ∧ bits = []) ∨
    bits ≠ [] ∧ ∃ v, kwargs.get? l.name = some v ∧ l.Holds bits v

theorem Leaf.Got.heldIn {kwargs : Kwargs} {l : Leaf} {bits : List String}
    (got : l.Got kwargs bits) : l.HeldIn kwargs bits := got.imp_right And.right

namespace Argument

/-- Bits spread over the arguments that store values: a group leaves all of them to one of its
alternatives. -/
inductive Spread (P : Leaf → List String → Prop) : Argument → List String → Prop
  | leaf {l : Leaf} {bits : List String} (own : P l bits) : Spread P (.leaf l) bits
  | unused {h : Header} {alternatives : List Argument} (each : ∀ a ∈ alternatives, Spread P a []) :
    Spread P (.group h alternatives) []
  | chosen {h : Header} {before after : List Argument} {a : Argument} {bits : List String}
      (some_bit : bits ≠ []) (taken : Spread P a bits) (others : ∀ b ∈ before ++ after, Spread P b []) :
    Spread P (.group h (before ++ a :: after)) bits

/-- The table has what exactly these bits amount to for the argument. -/
def Stores (kwargs : Kwargs) : Argument → List String → Prop :=
  Spread fun l bits => ∃ v, kwargs.get? l.name = some v ∧ l.Holds bits v

/-- The table once all of the bits are taken, in their order. -/
def takeAll (tagname : String) (a : Argument) : List String → Kwargs → Option Kwargs
  | [], kwargs => some kwargs
  | bit :: rest, kwargs => (a.offer tagname bit kwargs).kwargs?.bind (takeAll tagname a rest)

variable {P Q : Leaf → List String → Prop} {a : Argument} {tagname bit : String}
  {bits : List String} {left right kwargs kwargs' : Kwargs}

theorem leaves_subset {h : Header} {alternatives : List Argument} (member : a ∈ alternatives) :
    a.leaves ⊆ (group h alternatives).leaves := by
  intro l below
  rw [leaves_group]
  exact List.mem_flatMap.mpr ⟨a, member, below⟩

theorem mem_of_mem_others {before after : List Argument} {b : Argument}
    (other : b ∈ before ++ after) : b ∈ before ++ a :: after := by
  rw [List.mem_append] at other ⊢
  exact other.imp_right (List.mem_cons_of_mem a)

theorem Spread.imp (spread : Spread P a bits)
    (weaker : ∀ l ∈ a.leaves, ∀ bits, P l bits → Q l bits) : Spread Q a bits := by
  induction spread with
  | leaf own => exact .leaf (weaker _ (by simp [leaves]) _ own)
  | unused each ih =>
    apply Spread.unused
    intro a member
    exact ih a member fun l below => weaker l (leaves_subset member below)
  | chosen some_bit taken others ih ih_others =>
    apply Spread.chosen some_bit
    · exact ih fun l below => weaker l (leaves_subset (List.mem_append_cons_self) below)
    · intro b other
      exact ih_others b other fun l below =>
        weaker l (leaves_subset (mem_of_mem_others other) below)

theorem Spread.got_congr (spread : Spread (Leaf.Got left) a bits)
    (same : AgreeOn a.storedNames left right) : Spread (Leaf.Got right) a bits := by
  apply spread.imp
  intro l below bits got
  unfold Leaf.Got at got ⊢
  rwa [← same l.name (List.mem_map.mpr ⟨l, below, rfl⟩)]

theorem Spread.isSatisfied_iff (spread : Spread (Leaf.Got kwargs) a bits) :
    a.isSatisfied kwargs = true ↔ bits ≠ [] := by
  induction spread with
  | leaf own =>
    rename_i l bits
    rw [Argument.isSatisfied_iff, storedNames_leaf]
    rcases own with ⟨nothing, rfl⟩ | ⟨some_bit, v, held, _⟩
    · simp [Table.contains, nothing]
    · simp [Table.contains, held, some_bit]
  | unused each ih =>
    rw [isSatisfied_group]
    refine ⟨fun satisfied => ?_, fun absurd_bits => absurd rfl absurd_bits⟩
    obtain ⟨a, member, satisfied⟩ := satisfied
    exact absurd rfl ((ih a member).mp satisfied)
  | chosen some_bit taken others ih ih_others =>
    rw [isSatisfied_group]
    exact ⟨fun _ => some_bit, fun _ => ⟨_, List.mem_append_cons_self, ih.mpr some_bit⟩⟩

theorem Spread.of_absent (absent : ∀ n ∈ a.storedNames, kwargs.get? n = none) :
    Spread (Leaf.Got kwargs) a [] := by
  induction a using induction with
  | leaf l => exact .leaf (.inl ⟨absent l.name (by simp [storedNames_leaf]), rfl⟩)
  | group h alternatives ih =>
    apply Spread.unused
    intro a member
    exact ih a member fun n own => absent n (storedNames_subset member own)

theorem alternative_apart {before after : List Argument}
    (distinct : ((before ++ a :: after).flatMap storedNames).Nodup) :
    a.storedNames.Nodup ∧ ∀ b ∈ before ++ after, ∀ n ∈ b.storedNames, n ∉ a.storedNames := by
  rw [List.flatMap_append, List.flatMap_cons, List.nodup_append, List.nodup_append] at distinct
  obtain ⟨_, ⟨own, _, behind⟩, ahead⟩ := distinct
  refine ⟨own, fun b member n inside here => ?_⟩
  rcases List.mem_append.mp member with earlier | later
  · exact ahead n (List.mem_flatMap.mpr ⟨b, earlier, inside⟩) n (List.mem_append_left _ here) rfl
  · exact behind n here n (List.mem_flatMap.mpr ⟨b, later, inside⟩) rfl

/-- A bit that is taken goes behind those that the argument got before. -/
theorem Spread.offer (spread : Spread (Leaf.Got kwargs) a bits) (distinct : a.storedNames.Nodup)
    (taken : a.offer tagname bit kwargs = .accepted kwargs') :
    Spread (Leaf.Got kwargs') a (bits ++ [bit]) := by
  have others_kept : ∀ {a : Argument} {before after : List Argument},
      a.offer tagname bit kwargs = .accepted kwargs' →
      (∀ b ∈ before ++ after, ∀ n ∈ b.storedNames, n ∉ a.storedNames) →
      (∀ b ∈ before ++ after, Spread (Leaf.Got kwargs) b []) →
      ∀ b ∈ before ++ after, Spread (Leaf.Got kwargs') b [] := by
    intro a before after taken apart others b member
    apply (others b member).got_congr
    intro n own
    exact (get?_offer_of_notMem taken (apart b member n own)).symm
  induction spread with
  | leaf own =>
    rw [Argument.offer] at taken
    obtain ⟨value, takes⟩ := Leaf.offer_takes own.heldIn taken
    refine .leaf (.inr ⟨by simp, value, ?_, takes.holds⟩)
    rw [takes.stored, Table.get?_insert_self]
  | unused each ih =>
    rename_i h alternatives
    rw [offer_group] at taken
    have unsatisfied : alternatives.find? (·.isSatisfied kwargs) = none := by
      rw [List.find?_eq_none]
      intro a member satisfied
      exact absurd rfl ((each a member).isSatisfied_iff.mp satisfied)
    rw [unsatisfied] at taken
    dsimp only at taken
    split at taken
    · cases taken
    · rename_i found
      obtain ⟨before, a, after, rfl, answer, _⟩ := List.findSome?_eq_some_iff.mp found
      split at taken
      · cases taken
      · cases taken
        have taken := Offer.kwargs?_eq_some answer
        rw [storedNames_group] at distinct
        obtain ⟨own, apart⟩ := alternative_apart distinct
        refine .chosen (by simp) (ih a List.mem_append_cons_self own taken) ?_
        exact others_kept taken apart fun b other => each b (mem_of_mem_others other)
  | chosen some_bit inner others ih ih_others =>
    rename_i h before after a bits
    rw [offer_group] at taken
    have first : (before ++ a :: after).find? (·.isSatisfied kwargs) = some a := by
      rw [List.find?_eq_some_iff_append]
      refine ⟨inner.isSatisfied_iff.mpr some_bit, before, after, rfl, ?_⟩
      intro b member
      have unsatisfied := (others b (List.mem_append_left _ member)).isSatisfied_iff
      simpa using unsatisfied
    rw [first] at taken
    rw [storedNames_group] at distinct
    obtain ⟨own, apart⟩ := alternative_apart distinct
    exact .chosen (by simp) (ih own taken) (others_kept taken apart others)

theorem Spread.takeAll (distinct : a.storedNames.Nodup) {more : List String}
    (spread : Spread (Leaf.Got kwargs) a bits) (taken : a.takeAll tagname more kwargs = some kwargs') :
    Spread (Leaf.Got kwargs') a (bits ++ more) := by
  induction more generalizing kwargs bits with
  | nil =>
    cases taken
    rwa [List.append_nil]
  | cons bit rest ih =>
    obtain ⟨after, answer, taken⟩ := Option.bind_eq_some_iff.mp taken
    have spread := ih (spread.offer distinct (Offer.kwargs?_eq_some answer)) taken
    rwa [List.append_assoc] at spread

theorem get?_takeAll_of_notMem (taken : a.takeAll tagname bits kwargs = some kwargs') {n : String}
    (foreign : n ∉ a.storedNames) : kwargs'.get? n = kwargs.get? n := by
  induction bits generalizing kwargs with
  | nil =>
    cases taken
    rfl
  | cons bit rest ih =>
    obtain ⟨after, answer, taken⟩ := Option.bind_eq_some_iff.mp taken
    exact (ih taken).trans (get?_offer_of_notMem (Offer.kwargs?_eq_some answer) foreign)

theorem takeAll_agree {left' : Kwargs} (same : AgreeOn a.storedNames left right)
    (taken : a.takeAll tagname bits left = some left') :
    ∃ right', a.takeAll tagname bits right = some right' ∧ AgreeOn a.storedNames left' right' := by
  induction bits generalizing left right with
  | nil =>
    cases taken
    exact ⟨right, rfl, same⟩
  | cons bit rest ih =>
    obtain ⟨after, answer, taken⟩ := Option.bind_eq_some_iff.mp taken
    have alike : Offer.Alike a.storedNames left right (a.offer tagname bit left)
        (a.offer tagname bit right) := offer_alike same
    rw [takeAll]
    rw [Offer.kwargs?_eq_some answer] at alike
    generalize accepted : Offer.accepted after = first, a.offer tagname bit right = second at alike
    cases alike with
    | stored value own =>
      cases accepted
      exact ih (same.insert _ value) taken
    | declined => cases accepted
    | failed e => cases accepted

theorem declined_agree (same : AgreeOn a.storedNames left right)
    (declined : a.offer tagname bit left = .declined) : a.offer tagname bit right = .declined := by
  have alike : Offer.Alike a.storedNames left right (a.offer tagname bit left)
      (a.offer tagname bit right) := offer_alike same
  rw [declined] at alike
  generalize answer : Offer.declined = first, a.offer tagname bit right = second at alike
  cases alike with
  | stored value own => cases answer
  | declined => rfl
  | failed e => cases answer

theorem Spread.stores {leaves : List Leaf} {whole : Kwargs}
    (spread : Spread (Leaf.Got kwargs) a bits) (distinct : (leaves.map Leaf.name).Nodup)
    (inside : a.leaves ⊆ leaves) (same : AgreeOn a.storedNames (kwargs.fill leaves) whole) :
    a.Stores whole bits := by
  apply spread.imp
  intro l below bits got
  have filled : (kwargs.fill leaves).get? l.name = some ((kwargs.get? l.name).getD l.defaultValue) :=
    Kwargs.get?_fill_of_mem distinct (inside below)
  rw [same l.name (List.mem_map.mpr ⟨l, below, rfl⟩)] at filled
  rcases got with ⟨nothing, rfl⟩ | ⟨_, v, held, holds⟩
  · rw [nothing] at filled
    exact ⟨_, filled, .default⟩
  · rw [held] at filled
    exact ⟨v, filled, holds⟩

end Argument

end TagGrammar
