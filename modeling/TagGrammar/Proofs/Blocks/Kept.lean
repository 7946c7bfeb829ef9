import TagGrammar.Proofs.Grammar.Scopes
import TagGrammar.Proofs.Table.Entries
import TagGrammar.Template.Basic

namespace TagGrammar.BlockHost

variable {σ ν : Type} {h : BlockHost σ ν} {empty : ν}

/-- One request to the host: the end tags asked for and what came back. -/
structure Call (ν : Type) where
  asked : List String
  answer : Option (ν × String)
  deriving DecidableEq, Repr

/-- The host that writes down every call next to its own state. -/
def traced (h : BlockHost σ ν) : BlockHost (σ × List (Call ν)) ν where
  empty := h.empty
  parseUntil ends s :=
    let (answer, next) := h.parseUntil ends s.1
    (answer, next, s.2 ++ [⟨ends, answer⟩])

theorem assign_congr {τ : Type} {h' : BlockHost τ ν} (same : h'.empty = h.empty) (found : String)
    (content : ν) (blocks : Table ν) (pending : List BlockSpec) :
    h'.assign found content blocks pending = h.assign found content blocks pending := by
  induction pending generalizing content blocks with
  | nil => rfl
  | cons b rest ih => rw [assign, assign, ih, same]

theorem assign_traced (h : BlockHost σ ν) (found : String) (content : ν) (blocks : Table ν)
    (pending : List BlockSpec) :
    h.traced.assign found content blocks pending = h.assign found content blocks pending := by
  have same : h.traced.empty = h.empty := rfl
  exact assign_congr same found content blocks pending

section Loop

variable {tagname found : String} {blocks result : Table ν} {b : BlockSpec}
  {rest pending : List BlockSpec} {s s' : σ} {content : ν} {log calls : List (Call ν)}

theorem captureFrom_nil : h.captureFrom tagname blocks [] s = (.ok blocks, s) := by
  rw [captureFrom]

theorem captureFrom_none
    (ended : h.parseUntil ((b :: rest).map BlockSpec.identifier) s = (none, s')) :
    h.captureFrom tagname blocks (b :: rest) s =
      (.error (.unclosedBlock tagname ((b :: rest).map BlockSpec.identifier)), s') := by
  rw [captureFrom, ended]

theorem captureFrom_some
    (answered : h.parseUntil ((b :: rest).map BlockSpec.identifier) s = (some (content, found), s')) :
    h.captureFrom tagname blocks (b :: rest) s =
      h.captureFrom tagname (h.assign found content blocks (b :: rest)).1
        (h.assign found content blocks (b :: rest)).2 s' := by
  rw [captureFrom, answered]

theorem parseUntil_traced {ends : List String} {answer : Option (ν × String)}
    (answered : h.parseUntil ends s = (answer, s')) :
    h.traced.parseUntil ends (s, log) = (answer, s', log ++ [⟨ends, answer⟩]) := by
  simp only [traced, answered]

/-- Two hosts that give the same answers, the one on what it sees of the state of the other. -/
theorem captureFrom_view {τ : Type} (h : BlockHost σ ν) (h' : BlockHost τ ν) (view : τ → σ)
    (same : h'.empty = h.empty)
    (answers : ∀ ends s, h.parseUntil ends (view s) =
      ((h'.parseUntil ends s).1, view (h'.parseUntil ends s).2))
    (tagname : String) (blocks : Table ν) (pending : List BlockSpec) (s : τ) :
    h.captureFrom tagname blocks pending (view s) =
      ((h'.captureFrom tagname blocks pending s).1,
        view (h'.captureFrom tagname blocks pending s).2) := by
  fun_induction captureFrom h' tagname blocks pending s with
  | case1 blocks s => rw [captureFrom_nil]
  | case2 blocks b rest s ends s' ended =>
    have answered := answers ends s
    rw [ended] at answered
    rw [captureFrom_none answered]
  | case3 blocks b rest s ends content found s' answered next ih =>
    have answered' := answers ends s
    rw [answered] at answered'
    rw [captureFrom_some answered', ← assign_congr same, ih]

/-- Writing down the calls changes neither the result nor what the host goes through. -/
theorem captureFrom_traced (h : BlockHost σ ν) (tagname : String) (blocks : Table ν)
    (pending : List BlockSpec) (s : σ) (log : List (Call ν)) :
    h.captureFrom tagname blocks pending s =
      ((h.traced.captureFrom tagname blocks pending (s, log)).1,
        (h.traced.captureFrom tagname blocks pending (s, log)).2.1) :=
  captureFrom_view h h.traced Prod.fst rfl (fun _ _ => rfl) tagname blocks pending (s, log)

/-- The content goes to the first block pending and nothing to those skipped behind it. -/
theorem assign_cons (h : BlockHost σ ν) (found : String) (content : ν) (blocks : Table ν)
    (b : BlockSpec) (rest : List BlockSpec) :
    ∃ skipped pending, rest = skipped ++ pending ∧
      h.assign found content blocks (b :: rest) =
        (blocks.insertAll ((b.name, content) :: skipped.map (·.name, h.empty)), pending) := by
  induction rest generalizing b content blocks with
  | nil =>
    refine ⟨[], [], rfl, ?_⟩
    rw [assign, assign, ite_self]
    rfl
  | cons next rest ih =>
    by_cases own : b.identifier = found
    · exact ⟨[], next :: rest, rfl, by rw [assign, if_pos own]; rfl⟩
    · obtain ⟨skipped, pending, rfl, assigned⟩ := ih h.empty (blocks.insert b.name content) next
      refine ⟨next :: skipped, pending, rfl, ?_⟩
      rw [assign, if_neg own, assigned]
      rfl

/-- What a run that ends files under each pending block, call by call. -/
inductive Filed (empty : ν) : List BlockSpec → List (Call ν) → List (BlockSpec × ν) → Prop
  | done : Filed empty [] [] []
  | call {b : BlockSpec} {skipped pending : List BlockSpec} {content : ν} {found : String}
      {calls : List (Call ν)} {filed : List (BlockSpec × ν)} : Filed empty pending calls filed →
      Filed empty (b :: (skipped ++ pending))
        (⟨(b :: (skipped ++ pending)).map BlockSpec.identifier, some (content, found)⟩ :: calls)
        ((b, content) :: (skipped.map (·, empty) ++ filed))

namespace Filed

variable {filed : List (BlockSpec × ν)}

theorem map_fst (order : Filed empty pending calls filed) : filed.map Prod.fst = pending := by
  induction order with
  | done => rfl
  | call order ih => simp [ih, Function.comp_def]

/-- Each call got an answer, and it is filed under the first of the blocks asked for. -/
theorem captured (order : Filed empty pending calls filed) {call : Call ν} (member : call ∈ calls) :
    ∃ b content found, call.answer = some (content, found) ∧
      call.asked.head? = some b.identifier ∧ (b, content) ∈ filed := by
  induction order with
  | done => cases member
  | @call b skipped pending content found calls filed order ih =>
    rcases List.mem_cons.mp member with rfl | member
    · exact ⟨b, content, found, rfl, rfl, List.mem_cons_self⟩
    · obtain ⟨b', content', found', answered, asked, inside⟩ := ih member
      refine ⟨b', content', found', answered, asked, ?_⟩
      exact List.mem_cons_of_mem _ (List.mem_append_right _ inside)

/-- What is filed without a call for the block is empty. -/
theorem skipped (order : Filed empty pending calls filed) {b : BlockSpec} {content : ν}
    (member : (b, content) ∈ filed) (passed : ∀ call ∈ calls, call.asked.head? ≠ some b.identifier) :
    content = empty := by
  induction order with
  | done => cases member
  | @call first skipped pending content found calls filed order ih =>
    obtain ⟨other, passed⟩ := List.forall_mem_cons.mp passed
    rcases List.mem_cons.mp member with same | member
    · cases same
      exact absurd rfl other
    · rcases List.mem_append.mp member with behind | member
      · obtain ⟨b', _, same⟩ := List.mem_map.mp behind
        cases same
        rfl
      · exact ih member passed

end Filed

/-- The table entries that filed contents make. -/
def entriesOf (filed : List (BlockSpec × ν)) : List (String × ν) :=
  filed.map fun e => (e.1.name, e.2)

/-- A run that ends has filed something under every pending block, in the order of declaration,
and the table holds it by name, the last one where names repeat. -/
theorem captureFrom_filed (h : BlockHost σ ν) (tagname : String) (blocks : Table ν)
    (pending : List BlockSpec) (s : σ) (log : List (Call ν))
    (done : (h.traced.captureFrom tagname blocks pending (s, log)).1 = .ok result) :
    ∃ calls filed, Filed h.empty pending calls filed ∧
      (h.traced.captureFrom tagname blocks pending (s, log)).2.2 = log ++ calls ∧
      result = blocks.insertAll (entriesOf filed) := by
  fun_induction captureFrom h tagname blocks pending s generalizing log with
  | case1 blocks s =>
    rw [captureFrom_nil] at done ⊢
    cases done
    exact ⟨[], [], .done, (List.append_nil log).symm, rfl⟩
  | case2 blocks b rest s ends s' ended =>
    rw [captureFrom_none (parseUntil_traced ended)] at done
    cases done
  | case3 blocks b rest s ends content found s' answered next ih =>
    rw [captureFrom_some (parseUntil_traced answered), assign_traced] at done ⊢
    obtain ⟨calls, filed, order, logged, rfl⟩ := ih _ done
    obtain ⟨skipped, pending, rfl, assigned⟩ := assign_cons h found content blocks b rest
    simp only [next, assigned] at order logged ⊢
    refine ⟨_, _, .call order, logged.trans (List.append_assoc ..), ?_⟩
    rw [← Table.insertAll_append]
    simp [entriesOf, Function.comp_def]

/-- No content is lost: each declared block has one entry, under its name, which holds what came
back while that block was the first one asked for, or nothing where it never was. -/
structure Kept (empty : ν) (declared : List BlockSpec) (calls : List (Call ν)) (blocks : Table ν) :
    Prop where
  names : blocks.names.Perm (declared.map BlockSpec.name)
  asked : ∀ call ∈ calls, ∃ b ∈ declared, call.asked.head? = some b.identifier
  captured : ∀ call ∈ calls, ∀ b ∈ declared, call.asked.head? = some b.identifier →
    ∃ content found, call.answer = some (content, found) ∧ blocks.get? b.name = some content
  skipped : ∀ b ∈ declared, (∀ call ∈ calls, call.asked.head? ≠ some b.identifier) →
    blocks.get? b.name = some empty

theorem Filed.kept {filed : List (BlockSpec × ν)} (order : Filed empty pending calls filed)
    (identified : (pending.map BlockSpec.identifier).Nodup)
    (distinct : (pending.map BlockSpec.name).Nodup) :
    Kept empty pending calls (.ofList (entriesOf filed)) := by
  have names : (entriesOf filed).map (·.1) = pending.map BlockSpec.name := by
    rw [← order.map_fst, entriesOf, List.map_map, List.map_map]
    rfl
  have stored : ∀ {b : BlockSpec} {content : ν}, (b, content) ∈ filed →
      (Table.ofList (entriesOf filed)).get? b.name = some content := by
    intro b content inside
    have entry : (b.name, content) ∈ entriesOf filed := List.mem_map.mpr ⟨_, inside, rfl⟩
    exact Table.get?_insertAll_of_mem (names ▸ distinct) entry
  constructor
  · rw [← names]
    exact Table.names_ofList_perm (names ▸ distinct)
  · intro call member
    obtain ⟨b, content, found, _, asked, inside⟩ := order.captured member
    exact ⟨b, order.map_fst ▸ List.mem_map_of_mem inside, asked⟩
  · intro call member b declared asked
    obtain ⟨b', content, found, answered, asked', inside⟩ := order.captured member
    -- a call names its block by the identifier, so those have to differ as well
    have same : b' = b := by
      refine List.inj_on_of_nodup_map identified (order.map_fst ▸ List.mem_map_of_mem inside) declared ?_
      exact Option.some.inj (asked'.symm.trans asked)
    subst same
    exact ⟨content, found, answered, stored inside⟩
  · intro b declared passed
    rw [← order.map_fst] at declared
    obtain ⟨⟨b', content⟩, inside, rfl⟩ := List.mem_map.mp declared
    rw [stored inside, order.skipped inside passed]

end Loop

/-- With any host, a capture that ends loses nothing exactly when the declared blocks have names of
their own; identifiers of their own are not enough. -/
theorem kept_iff_names_distinct (o : Options) (h : BlockHost σ ν) (tagname : String) (s : σ) :
    let run := h.traced.capture tagname o.grammar.blocks (s, [])
    h.capture tagname o.grammar.blocks s = (run.1, run.2.1) ∧
    ∀ blocks, run.1 = .ok blocks →
      (Kept h.empty o.grammar.blocks run.2.2 blocks ↔ (o.grammar.blocks.map BlockSpec.name).Nodup) := by
  intro run
  refine ⟨captureFrom_traced h tagname .empty o.grammar.blocks s [], fun blocks done => ?_⟩
  obtain ⟨calls, filed, order, logged, rfl⟩ :=
    captureFrom_filed h tagname .empty o.grammar.blocks s [] done
  have calls_eq : run.2.2 = calls := logged
  constructor
  · intro kept
    exact kept.names.nodup_iff.mp (Table.nodup_names _)
  · intro distinct
    rw [calls_eq]
    exact order.kept o.nodup_identifiers distinct

theorem shared_name_loses_content :
    let o : Options := ⟨⟨[], [], [⟨"a", some "x"⟩, ⟨"b", some "x"⟩]⟩, .breakpoints, by decide⟩
    let run := (traced Template.host).capture "test_tag" o.grammar.blocks
      ([.text "1", .tag ["b"]], [])
    run = (.ok (.ofList [("x", [])]), [], [⟨["a", "b"], some ([.text "1"], "b")⟩]) ∧
    ¬Kept [] o.grammar.blocks run.2.2 (.ofList [("x", [])]) := by
  intro o run
  have result : run = (.ok (.ofList [("x", [])]), [], [⟨["a", "b"], some ([.text "1"], "b")⟩]) := by
    have answered : (traced Template.host).parseUntil ["a", "b"] ([.text "1", .tag ["b"]], []) =
        (some ([.text "1"], "b"), [], [⟨["a", "b"], some ([.text "1"], "b")⟩]) := rfl
    exact (captureFrom_some answered).trans captureFrom_nil
  refine ⟨result, fun kept => ?_⟩
  rw [result] at kept
  obtain ⟨content, found, answered, stored⟩ :=
    kept.captured _ List.mem_cons_self ⟨"a", some "x"⟩ List.mem_cons_self rfl
  cases answered
  cases stored

end TagGrammar.BlockHost
