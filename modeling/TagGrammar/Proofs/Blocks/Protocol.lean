import Mathlib.Data.List.Chain
import Mathlib.Data.List.TakeWhile
import TagGrammar.Options.Basic
import TagGrammar.Proofs.Blocks.Kept

namespace TagGrammar.BlockHost

variable {σ ν : Type}

/-- What is left to ask for behind the first of these end tags that was found. -/
def pendingAfter (found : String) (ends : List String) : List String :=
  (ends.dropWhile (· ≠ found)).tail

section PendingAfter

variable {found : String} {ends : List String}

theorem pendingAfter_cons_self (found : String) (rest : List String) :
    pendingAfter found (found :: rest) = rest := by
  simp [pendingAfter]

theorem pendingAfter_cons_ne {first : String} (other : first ≠ found) (rest : List String) :
    pendingAfter found (first :: rest) = pendingAfter found rest := by
  simp [pendingAfter, other]

theorem pendingAfter_of_notMem (absent : found ∉ ends) : pendingAfter found ends = [] := by
  have dropped : ends.dropWhile (· ≠ found) = [] := by
    rw [List.dropWhile_eq_nil_iff]
    intro e member
    exact decide_eq_true (ne_of_mem_of_not_mem member absent)
  rw [pendingAfter, dropped, List.tail_nil]

theorem exists_eq_append_pendingAfter (member : found ∈ ends) :
    ∃ before, ends = before ++ found :: pendingAfter found ends ∧ found ∉ before := by
  induction ends with
  | nil => cases member
  | cons first rest ih =>
    by_cases same : first = found
    · subst same
      exact ⟨[], by rw [pendingAfter_cons_self]; rfl, List.not_mem_nil⟩
    · have later : found ∈ rest := (List.mem_cons.mp member).resolve_left (Ne.symm same)
      obtain ⟨before, order, fresh⟩ := ih later
      refine ⟨first :: before, ?_, List.not_mem_cons_of_ne_of_not_mem (Ne.symm same) fresh⟩
      rw [pendingAfter_cons_ne same, List.cons_append, ← order]

theorem pendingAfter_suffix (found : String) (ends : List String) :
    pendingAfter found ends <:+ ends :=
  (List.tail_suffix _).trans (List.dropWhile_suffix _)

theorem length_pendingAfter_lt (found : String) (pending : ends ≠ []) :
    (pendingAfter found ends).length < ends.length := by
  have kept := (List.dropWhile_suffix (l := ends) (· ≠ found)).length_le
  have some_asked := List.length_pos_of_ne_nil pending
  rw [pendingAfter, List.length_tail]
  omega

theorem map_identifier_assign (h : BlockHost σ ν) (found : String) (content : ν) (blocks : Table ν)
    (pending : List BlockSpec) :
    (h.assign found content blocks pending).2.map BlockSpec.identifier =
      pendingAfter found (pending.map BlockSpec.identifier) := by
  induction pending generalizing content blocks with
  | nil => rfl
  | cons b rest ih =>
    rw [assign, List.map_cons]
    split
    · rename_i own
      rw [own, pendingAfter_cons_self]
    · rename_i other
      rw [ih, pendingAfter_cons_ne other]

end PendingAfter

/-- A capture as the host sees it: the end tags pending, the calls from then on, the result. -/
inductive Exchange (tagname : String) :
    List String → List (Call ν) → Except ParseError (Table ν) → Prop
  | closed (blocks : Table ν) : Exchange tagname [] [] (.ok blocks)
  | unclosed {ends : List String} (pending : ends ≠ []) :
      Exchange tagname ends [⟨ends, none⟩] (.error (.unclosedBlock tagname ends))
  | call {ends : List String} {content : ν} {found : String} {calls : List (Call ν)}
      {result : Except ParseError (Table ν)} (pending : ends ≠ []) :
      Exchange tagname (pendingAfter found ends) calls result →
      Exchange tagname ends (⟨ends, some (content, found)⟩ :: calls) result

theorem captureFrom_exchange (h : BlockHost σ ν) (tagname : String) (blocks : Table ν)
    (pending : List BlockSpec) (s : σ) (log : List (Call ν)) :
    ∃ calls, (h.traced.captureFrom tagname blocks pending (s, log)).2.2 = log ++ calls ∧
      Exchange tagname (pending.map BlockSpec.identifier) calls
        (h.traced.captureFrom tagname blocks pending (s, log)).1 := by
  fun_induction captureFrom h tagname blocks pending s generalizing log with
  | case1 blocks s =>
    rw [captureFrom_nil]
    exact ⟨[], (List.append_nil log).symm, .closed blocks⟩
  | case2 blocks b rest s ends s' ended =>
    rw [captureFrom_none (parseUntil_traced ended)]
    exact ⟨_, rfl, .unclosed (List.cons_ne_nil _ _)⟩
  | case3 blocks b rest s ends content found s' answered next ih =>
    rw [captureFrom_some (parseUntil_traced answered), assign_traced]
    obtain ⟨calls, logged, exchange⟩ := ih (log ++ [⟨ends, some (content, found)⟩])
    rw [map_identifier_assign] at exchange
    exact ⟨_, logged.trans (List.append_assoc ..), .call (List.cons_ne_nil _ _) exchange⟩

/-- The second call asks for what is behind the end tag that the first one found. -/
structure Call.Leads (c d : Call ν) : Prop where
  found : ∃ content found before, c.answer = some (content, found) ∧
    c.asked = before ++ found :: d.asked ∧ found ∉ before
  pending : d.asked ≠ []
  suffix : d.asked <:+ c.asked
  shorter : d.asked.length < c.asked.length

/-- The calls of a capture from these end tags on, and the result that they lead to. -/
structure Orderly (tagname : String) (ends : List String) (calls : List (Call ν))
    (result : Except ParseError (Table ν)) : Prop where
  bounded : calls.length ≤ ends.length
  first : calls.head?.map Call.asked = if ends = [] then none else some ends
  leads : calls.IsChain Call.Leads
  /-- There is a next call unless the end tag was the last one asked for, or none of them. -/
  last : ∀ c content found, calls.getLast? = some c → c.answer = some (content, found) →
    found ∈ c.asked → ∃ before, c.asked = before ++ [found] ∧ found ∉ before
  fails_iff : (∃ e, result = .error e) ↔ ∃ c ∈ calls, c.answer = none
  unanswered : ∀ c ∈ calls, c.answer = none →
    result = .error (.unclosedBlock tagname c.asked) ∧
      ∃ earlier, calls = earlier ++ [c] ∧ ∀ d ∈ earlier, d.answer ≠ none

namespace Exchange

variable {tagname found : String} {ends : List String} {content : ν} {calls : List (Call ν)}
  {result : Except ParseError (Table ν)}

theorem head?_asked (exchange : Exchange tagname ends calls result) :
    calls.head?.map Call.asked = if ends = [] then none else some ends := by
  cases exchange with
  | closed blocks => rfl
  | unclosed pending => rw [if_neg pending]; rfl
  | call pending rest => rw [if_neg pending]; rfl

theorem leads_head (pending : ends ≠ [])
    (exchange : Exchange tagname (pendingAfter found ends) calls result) :
    ∀ d ∈ calls.head?, Call.Leads ⟨ends, some (content, found)⟩ d := by
  intro d next
  have asked := exchange.head?_asked
  rw [Option.mem_def.mp next] at asked
  split at asked
  · cases asked
  rename_i left
  have same : d.asked = pendingAfter found ends := Option.some.inj asked
  have member : found ∈ ends := Decidable.of_not_not fun absent => left (pendingAfter_of_notMem absent)
  obtain ⟨before, order, fresh⟩ := exists_eq_append_pendingAfter member
  rw [← same] at order left
  constructor
  · exact ⟨content, found, before, rfl, order, fresh⟩
  · exact left
  · exact same ▸ pendingAfter_suffix found ends
  · exact same ▸ length_pendingAfter_lt found pending

theorem orderly_call (pending : ends ≠ [])
    (rest : Exchange tagname (pendingAfter found ends) calls result)
    (later : Orderly tagname (pendingAfter found ends) calls result) :
    Orderly tagname ends (⟨ends, some (content, found)⟩ :: calls) result := by
  constructor
  · have shorter := length_pendingAfter_lt found pending
    exact Nat.lt_of_le_of_lt later.bounded shorter
  · exact (if_neg pending).symm
  · exact List.isChain_cons.mpr ⟨leads_head pending rest, later.leads⟩
  · intro c content' found' last answered member
    cases calls with
    | nil =>
      rw [List.getLast?_singleton] at last
      cases last
      cases answered
      obtain ⟨before, order, fresh⟩ := exists_eq_append_pendingAfter member
      have closed : pendingAfter found ends = [] := by simpa using later.first
      rw [closed] at order
      exact ⟨before, order, fresh⟩
    | cons d calls => exact later.last c content' found' (by simpa using last) answered member
  · rw [later.fails_iff]
    simp
  · intro c member unanswered
    rcases List.mem_cons.mp member with rfl | member
    · cases unanswered
    obtain ⟨failed, earlier, rfl, answered⟩ := later.unanswered c member unanswered
    exact ⟨failed, _ :: earlier, rfl, List.forall_mem_cons.mpr ⟨Option.some_ne_none _, answered⟩⟩

theorem orderly (exchange : Exchange tagname ends calls result) :
    Orderly tagname ends calls result := by
  induction exchange with
  | closed blocks =>
    constructor
    · exact Nat.le_refl 0
    · rfl
    · exact .nil
    · exact fun c content found absent => nomatch absent
    · simp
    · exact fun c absent => nomatch absent
  | unclosed pending =>
    constructor
    · exact List.length_pos_of_ne_nil pending
    · exact (if_neg pending).symm
    · exact .singleton _
    · intro c content found last answered
      cases last
      cases answered
    · simp
    · intro c member _
      cases List.mem_singleton.mp member
      exact ⟨rfl, [], rfl, fun d absent => nomatch absent⟩
  | call pending rest ih => exact orderly_call pending rest ih

end Exchange

/-- The parse of a tag goes to the host as the capture of its blocks does. -/
theorem host_parse_of_done (h : BlockHost σ ν) (tagname : String) (s : σ) {o : Options}
    {bits : List String} {t : ParseState} (done : o.parseKwargs tagname bits = .done t) :
    (o.parse tagname bits h s).host = (h.capture tagname o.grammar.blocks s).2 := by
  have seen := captureFrom_view h h.recorded Prod.fst rfl (fun _ _ => rfl) tagname .empty
    o.grammar.blocks (s, [])
  rw [Options.parse, done, capture]
  exact (congrArg Prod.snd seen).symm

/-- With any host, a capture asks in order for what is pending, and it fails exactly when the
template ends first. A parse makes no call at all when its arguments fail. -/
theorem capture_orderly (h : BlockHost σ ν) (tagname : String) (specs : List BlockSpec) (s : σ) :
    let run := h.traced.capture tagname specs (s, [])
    h.capture tagname specs s = (run.1, run.2.1) ∧
    Orderly tagname (specs.map BlockSpec.identifier) run.2.2 run.1 ∧
    ∀ (o : Options) (bits : List String),
      (∀ e t, o.parseKwargs tagname bits = .failed e t →
        (o.parse tagname bits h.traced (s, [])).result = .error e ∧
        (o.parse tagname bits h.traced (s, [])).host = (s, [])) ∧
      ∀ t, o.parseKwargs tagname bits = .done t → (o.parse tagname bits h.traced (s, [])).host =
        (h.traced.capture tagname o.grammar.blocks (s, [])).2 := by
  intro run
  refine ⟨captureFrom_traced h tagname .empty specs s [], ?_, fun o bits => ⟨?_, ?_⟩⟩
  · obtain ⟨calls, logged, exchange⟩ := captureFrom_exchange h tagname .empty specs s []
    have calls_eq : run.2.2 = calls := logged
    rw [calls_eq]
    exact exchange.orderly
  · intro e t failed
    rw [Options.parse, failed]
    exact ⟨rfl, rfl⟩
  · exact fun t done => host_parse_of_done h.traced tagname (s, []) done

end TagGrammar.BlockHost
