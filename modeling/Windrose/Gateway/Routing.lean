/-
  Gateway/Routing.lean --- which deployments a request calls.

  Source: services/ai-gateway/app/domain/routing.py (CircuitBreaker, HealthRegistry, Router,
  AttemptPlan) and pipeline.py (_plan, _call_with_failover).

  A deployment without a state is one in the initial state.  Time and error rates are
  rational.  What is called is decided before the first call: a breaker that opens later
  stops no attempt of the request.
-/
import Mathlib.Data.List.Sort
import Mathlib.Data.Rat.Floor
import Windrose.Foundation.Fresh
import Windrose.Gateway.Chat

set_option autoImplicit false

namespace Windrose.Gateway

open Windrose.Foundation

/-! ## The circuit breaker -/

/-- The settings of the breaker. -/
structure BreakerSettings where
  consecutiveFailures : Nat
  errorRateThreshold : Rat
  windowSeconds : Rat
  halfopenAfterSeconds : Rat

/-- A result: when, and whether it was a success. -/
abbrev CallResult : Type := Rat × Bool

/-- The results are kept newest first. -/
structure BreakerState where
  consecutiveFailures : Nat
  openedAt : Option Rat
  results : List CallResult
  deriving DecidableEq

def BreakerState.init : BreakerState := ⟨0, none, []⟩

/-- The results of the window that ends now. -/
def windowResults (settings : BreakerSettings) (now : Rat) (results : List CallResult) :
    List Bool :=
  (results.filter fun r => now - r.1 ≤ settings.windowSeconds).map Prod.snd

/-- The condition under which a failure opens the breaker. -/
def tooManyFailures (settings : BreakerSettings) (consecutive : Nat) (window : List Bool) : Bool :=
  let errorRate : Rat := if window = [] then 0 else window.count false / window.length
  settings.consecutiveFailures ≤ consecutive ∨
    4 ≤ window.length ∧ settings.errorRateThreshold < errorRate

/-- `record`. -/
def BreakerState.record (settings : BreakerSettings) (st : BreakerState) (r : CallResult) :
    BreakerState :=
  let results := (r :: st.results).take 200
  if r.2 then ⟨0, none, results⟩
  else
    let consecutive := st.consecutiveFailures + 1
    ⟨consecutive,
      if tooManyFailures settings consecutive (windowResults settings r.1 results) then some r.1
      else st.openedAt, results⟩

/-- `allows`. -/
def BreakerState.allows (settings : BreakerSettings) (now : Rat) (st : BreakerState) : Bool :=
  match st.openedAt with
  | none => true
  | some u => settings.halfopenAfterSeconds ≤ now - u

/-- `_states`. -/
abbrev CircuitBreaker : Type := Bytes → BreakerState

/-- `record`. -/
def CircuitBreaker.record (settings : BreakerSettings) (breaker : CircuitBreaker)
    (call : Bytes × CallResult) : CircuitBreaker :=
  Function.update breaker call.1 ((breaker call.1).record settings call.2)

/-- The breaker after some calls. -/
def CircuitBreaker.run (settings : BreakerSettings) (calls : List (Bytes × CallResult)) :
    CircuitBreaker :=
  calls.foldl (CircuitBreaker.record settings) fun _ => .init

/-- The results of a deployment, newest first. -/
def history (id : Bytes) (calls : List (Bytes × CallResult)) : List CallResult :=
  ((calls.filter (·.1 = id)).map Prod.snd).reverse

/-- The newest result is a failure that opens the breaker. -/
def opens (settings : BreakerSettings) : List CallResult → Bool
  | [] => false
  | r :: past => !r.2 && tooManyFailures settings ((r :: past).takeWhile (!·.2)).length
      (windowResults settings r.1 ((r :: past).take 200))

section Breaker

variable (settings : BreakerSettings)

/-- The state of a breaker, of its results alone. -/
def stateOf : List CallResult → BreakerState := List.foldr (fun r st => st.record settings r) .init

theorem run_eq_stateOf (calls : List (Bytes × CallResult)) (id : Bytes) :
    CircuitBreaker.run settings calls id = stateOf settings (history id calls) := by
  induction calls using List.reverseRecOn with
  | nil => rfl
  | append_singleton calls call ih =>
    rw [CircuitBreaker.run, List.foldl_concat, ← CircuitBreaker.run, CircuitBreaker.record]
    by_cases hid : call.1 = id
    · subst hid
      rw [Function.update_self, ih]
      simp [history, stateOf]
    · rw [Function.update_of_ne (Ne.symm hid), ih]
      simp [history, hid]

theorem results_stateOf (h : List CallResult) : (stateOf settings h).results = h.take 200 := by
  induction h with
  | nil => rfl
  | cons r h ih =>
    have hrecord : (stateOf settings (r :: h)).results =
        (r :: (stateOf settings h).results).take 200 := by
      show ((stateOf settings h).record settings r).results = _
      unfold BreakerState.record
      split <;> rfl
    rw [hrecord, ih, List.take_succ_cons, List.take_succ_cons, List.take_take]
    rfl

theorem consecutive_stateOf (h : List CallResult) :
    (stateOf settings h).consecutiveFailures = (h.takeWhile (!·.2)).length := by
  induction h with
  | nil => rfl
  | cons r h ih =>
    show ((stateOf settings h).record settings r).consecutiveFailures = _
    unfold BreakerState.record
    cases hr : r.2 <;> simp [hr, ih]

/-- A success closes the breaker, a failure that opens it does so from now on, and another
failure changes nothing. -/
theorem openedAt_stateOf (r : CallResult) (h : List CallResult) :
    (stateOf settings (r :: h)).openedAt =
      if r.2 then none else if opens settings (r :: h) then some r.1
      else (stateOf settings h).openedAt := by
  show ((stateOf settings h).record settings r).openedAt = _
  unfold BreakerState.record
  cases hr : r.2 with
  | true => rfl
  | false =>
    simp [opens, hr, results_stateOf, consecutive_stateOf, List.take_succ_cons, List.take_take]

/-- A failure opened the breaker, no success came after it, and the pause is not over. -/
def Pauses (now : Rat) (h : List CallResult) : Prop :=
  ∃ later r past, h = later ++ r :: past ∧ opens settings (r :: past) = true ∧
    (∀ f ∈ later, f.2 = false) ∧ now - r.1 < settings.halfopenAfterSeconds

theorem pauses_cons {now : Rat} {r : CallResult} {h : List CallResult} :
    Pauses settings now (r :: h) ↔
      opens settings (r :: h) = true ∧ now - r.1 < settings.halfopenAfterSeconds ∨
        r.2 = false ∧ Pauses settings now h := by
  constructor
  · rintro ⟨_ | ⟨f, later⟩, s, past, heq, hopens, hlater, hpause⟩
    · cases heq
      exact .inl ⟨hopens, hpause⟩
    · obtain ⟨rfl, hrest⟩ := List.cons.inj heq
      obtain ⟨hr, hlater⟩ := List.forall_mem_cons.mp hlater
      exact .inr ⟨hr, later, s, past, hrest, hopens, hlater, hpause⟩
  · rintro (⟨hopens, hpause⟩ | ⟨hr, later, s, past, rfl, hopens, hlater, hpause⟩)
    · exact ⟨[], r, h, rfl, hopens, List.forall_mem_nil _, hpause⟩
    · exact ⟨r :: later, s, past, rfl, hopens, List.forall_mem_cons.mpr ⟨hr, hlater⟩, hpause⟩

theorem allows_stateOf_iff (now : Rat) {h : List CallResult}
    (hsorted : h.Pairwise fun r s => s.1 ≤ r.1) :
    (stateOf settings h).allows settings now = false ↔ Pauses settings now h := by
  induction h with
  | nil => simp [stateOf, BreakerState.init, BreakerState.allows, Pauses]
  | cons r h ih =>
    obtain ⟨hnewest, hsorted⟩ := List.pairwise_cons.mp hsorted
    rw [pauses_cons, ← ih hsorted, BreakerState.allows, openedAt_stateOf]
    cases hr : r.2 with
    | true => simp [opens, hr]
    | false =>
      by_cases hopens : opens settings (r :: h) = true
      · -- A breaker that was shut before is shut for longer now.
        have hbefore : (stateOf settings h).allows settings now = false →
            now - r.1 < settings.halfopenAfterSeconds := by
          intro hshut
          obtain ⟨later, s, past, rfl, -, -, hpause⟩ := (ih hsorted).mp hshut
          exact (sub_le_sub_left (hnewest s (by simp)) now).trans_lt hpause
        simpa [hopens] using hbefore
      · simp [hopens, BreakerState.allows]

/-- After any calls in the order of time, a breaker refuses a deployment exactly when one of
its failures opened it, no success of it came later, and the pause since is not over. -/
theorem allows_eq_false_iff {calls : List (Bytes × CallResult)} (id : Bytes) (now : Rat)
    (hsorted : calls.Pairwise fun c d => c.2.1 ≤ d.2.1) :
    (CircuitBreaker.run settings calls id).allows settings now = false ↔
      Pauses settings now (history id calls) := by
  rw [run_eq_stateOf]
  refine allows_stateOf_iff settings now ?_
  rw [history, List.pairwise_reverse, List.pairwise_map]
  exact hsorted.filter _

/-- Five failures in a row open the breaker. -/
theorem allows_eq_false_five : let settings : BreakerSettings := ⟨5, 1 / 2, 60, 30⟩
    (CircuitBreaker.run settings (.replicate 5 ([], 0, false)) []).allows settings 10 = false :=
  (allows_eq_false_iff _ [] 10 (by decide)).mpr
    ⟨[], (0, false), .replicate 4 (0, false), by decide, by decide, nofun, by norm_num⟩

end Breaker

/-! ## Candidates and attempts -/

/-- The deployments for a rung, in order. -/
structure Candidates where
  deployments : List ProviderDeployment
  crossCloud : Bool
  evaluationOrder : List Bytes

/-- What the health registry and the breaker say of a deployment now. -/
structure Standing where
  healthy : Bytes → Bool
  allows : Bytes → Bool

section Routing

variable (deployments : List ProviderDeployment) (standing : Standing) (cellCloud : Option String)

/-- A deployment that may be called for an alias. -/
def Serves (modelAlias : String) (d : ProviderDeployment) : Prop :=
  d.modelFamily = modelAlias ∧ d.status = .active ∧ d.deleted = false ∧
    standing.healthy d.id = true ∧ standing.allows d.id = true

instance (modelAlias : String) : DecidablePred (Serves standing modelAlias) := fun _ =>
  inferInstanceAs (Decidable (_ ∧ _))

/-- `cell_cloud and d.cloud == cell_cloud`. -/
def inCell (d : ProviderDeployment) : Bool := cellCloud ≠ some "" ∧ some d.cloud = cellCloud

/-- `candidates`. -/
def candidates (modelAlias : String) : Candidates :=
  let pool := (deployments.filter (Serves standing modelAlias)).insertionSort
    fun d e => d.priority ≤ e.priority
  let same := pool.filter (inCell cellCloud)
  if same ≠ [] then ⟨same, false, pool.map (·.id)⟩
  else ⟨pool, pool ≠ [] ∧ cellCloud.isSome, pool.map (·.id)⟩

/-- The loop of `AttemptPlan`. -/
def attemptLoop (maxAttempts maxProviders : Nat) :
    List ProviderDeployment → List String → List ProviderDeployment → List ProviderDeployment
  | [], _, sequence => sequence
  | d :: ds, providers, sequence =>
    if d.provider ∉ providers ∧ maxProviders ≤ providers.length then
      attemptLoop maxAttempts maxProviders ds providers sequence
    else
      let sequence := sequence ++ [d, d]
      if maxAttempts ≤ sequence.length then sequence
      else attemptLoop maxAttempts maxProviders ds (addNew id providers d.provider) sequence

/-- `AttemptPlan`. -/
def attemptPlan (maxAttempts maxProviders : Nat) (ds : List ProviderDeployment) :
    List ProviderDeployment :=
  (attemptLoop maxAttempts maxProviders ds [] []).take maxAttempts

/-- `_plan`: the aliases of the rungs from one on are tried in turn. -/
def planAlong : List String → Option Candidates
  | [] => none
  | modelAlias :: above =>
    let found := candidates deployments standing cellCloud modelAlias
    if found.deployments ≠ [] then some found else planAlong above

/-- The loop over the sequence: the calls with their outcome, and the answer. -/
def callLoop {R : Type} (complete : Nat → ProviderDeployment → Option R) :
    Nat → List ProviderDeployment → List (ProviderDeployment × Bool) × Option R
  | _, [] => ([], none)
  | n, d :: ds =>
    match complete n d with
    | some result => ([(d, true)], some result)
    | none => ((d, false) :: (callLoop complete (n + 1) ds).1, (callLoop complete (n + 1) ds).2)

/-- The aliases of the first rung with the alias and of those above it. -/
def aliasesFrom (ladder : ModelLadder) (modelAlias : String) : List String :=
  let index := (ladder.rungs.findIdx? (·.modelAlias = modelAlias)).getD 0
  modelAlias :: (ladder.rungs.drop (index + 1)).map (·.modelAlias)

/-- `none` stands for `UpstreamUnavailable` before any call. -/
def callWithFailover {R : Type} (complete : Nat → ProviderDeployment → Option R)
    (ladder : ModelLadder) (modelAlias : String) :
    Option (List (ProviderDeployment × Bool) × Option R) :=
  (planAlong deployments standing cellCloud (aliasesFrom ladder modelAlias)).map fun found =>
    callLoop complete 0 (attemptPlan 3 2 found.deployments)

variable {deployments standing cellCloud}

theorem mem_candidates {modelAlias : String} {d : ProviderDeployment}
    (h : d ∈ (candidates deployments standing cellCloud modelAlias).deployments) :
    d ∈ deployments ∧ Serves standing modelAlias d ∧ (inCell cellCloud d = true ∨
      ∀ e ∈ deployments, Serves standing modelAlias e → inCell cellCloud e = false) := by
  unfold candidates at h
  dsimp only at h
  split at h
  · simp_all
  · next hsame => simp_all

theorem candidates_eq_nil_iff {modelAlias : String} :
    (candidates deployments standing cellCloud modelAlias).deployments = [] ↔
      ∀ d ∈ deployments, ¬Serves standing modelAlias d := by
  have hpool : (deployments.filter (Serves standing modelAlias)).insertionSort
      (fun d e => d.priority ≤ e.priority) = [] ↔ ∀ d ∈ deployments,
        ¬Serves standing modelAlias d := by
    rw [← List.length_eq_zero_iff, List.length_insertionSort, List.length_eq_zero_iff,
      List.filter_eq_nil_iff]
    simp
  unfold candidates
  dsimp only
  split
  · next hsame => exact iff_of_false hsame fun h => hsame (by rw [hpool.mpr h]; rfl)
  · exact hpool

variable (deployments standing cellCloud) in
/-- The lowest rung that has a candidate is taken. -/
theorem planAlong_cases (aliases : List String) :
    (planAlong deployments standing cellCloud aliases = none ∧
      ∀ a ∈ aliases, ∀ d ∈ deployments, ¬Serves standing a d) ∨
    ∃ below served above, aliases = below ++ served :: above ∧
      (∀ a ∈ below, ∀ d ∈ deployments, ¬Serves standing a d) ∧
      (candidates deployments standing cellCloud served).deployments ≠ [] ∧
      planAlong deployments standing cellCloud aliases =
        some (candidates deployments standing cellCloud served) := by
  induction aliases with
  | nil => exact .inl ⟨rfl, List.forall_mem_nil _⟩
  | cons a above ih =>
    rw [planAlong]
    by_cases hfound : (candidates deployments standing cellCloud a).deployments = []
    · have hnone := candidates_eq_nil_iff.mp hfound
      simp only [ne_eq, hfound, not_true_eq_false, if_false]
      rcases ih with ⟨heq, hall⟩ | ⟨below, served, above, rfl, hbelow, hne, heq⟩
      · exact .inl ⟨heq, List.forall_mem_cons.mpr ⟨hnone, hall⟩⟩
      · exact .inr ⟨a :: below, served, above, rfl, List.forall_mem_cons.mpr ⟨hnone, hbelow⟩,
          hne, heq⟩
    · exact .inr ⟨[], a, above, rfl, List.forall_mem_nil _, hfound, if_pos hfound⟩

/-- The sequence grows by candidates of at most `maxProviders` providers. -/
theorem attemptLoop_spec (maxAttempts maxProviders : Nat) (ds : List ProviderDeployment)
    {providers : List String} {sequence : List ProviderDeployment}
    (hle : providers.length ≤ maxProviders) (hseq : ∀ d ∈ sequence, d.provider ∈ providers) :
    sequence <+: attemptLoop maxAttempts maxProviders ds providers sequence ∧
    (∀ d ∈ attemptLoop maxAttempts maxProviders ds providers sequence, d ∈ sequence ∨ d ∈ ds) ∧
    ∃ ps : List String, ps.length ≤ maxProviders ∧
      ∀ d ∈ attemptLoop maxAttempts maxProviders ds providers sequence, d.provider ∈ ps := by
  induction ds generalizing providers sequence with
  | nil => exact ⟨List.prefix_rfl, fun d hd => .inl hd, providers, hle, hseq⟩
  | cons d ds ih =>
    rw [attemptLoop]
    split
    · obtain ⟨hpre, hmem, hps⟩ := ih hle hseq
      exact ⟨hpre, fun e he => (hmem e he).imp_right (List.mem_cons_of_mem d), hps⟩
    · next hcall =>
      have hgrown : ∀ e ∈ sequence ++ [d, d], e ∈ sequence ∨ e ∈ d :: ds := by
        intro e he
        simpa [or_assoc] using (List.mem_append.mp he).imp_right fun h => .inl (by simpa using h)
      have hle : (addNew id providers d.provider).length ≤ maxProviders := by
        unfold addNew
        split
        · exact hle
        · next hnew =>
          have hroom := not_and.mp hcall (by simpa using hnew)
          rw [List.length_append, List.length_singleton]
          omega
      have hseq : ∀ e ∈ sequence ++ [d, d], e.provider ∈ addNew id providers d.provider := by
        intro e he
        rcases List.mem_append.mp he with he | he
        · exact (isPrefix_addNew _ _).subset (hseq e he)
        · obtain rfl : e = d := by simpa using he
          simpa using @key_mem_addNew String String _ id providers e.provider
      dsimp only
      split
      · exact ⟨List.prefix_append _ _, hgrown, _, hle, hseq⟩
      · obtain ⟨hpre, hmem, hps⟩ := ih hle hseq
        exact ⟨(List.prefix_append _ _).trans hpre, fun e he => (hmem e he).elim (hgrown e)
          fun h => .inr (List.mem_cons_of_mem d h), hps⟩

theorem attemptPlan_ne_nil {ds : List ProviderDeployment} (hne : ds ≠ []) :
    attemptPlan 3 2 ds ≠ [] := by
  obtain ⟨d, ds, rfl⟩ := List.exists_cons_of_ne_nil hne
  intro h
  have hloop : attemptLoop 3 2 ds [d.provider] [d, d] = [] := by
    simpa [attemptPlan, attemptLoop, addNew] using h
  have hpre := (@attemptLoop_spec 3 2 ds [d.provider] [d, d] (by simp) (by simp)).1
  simp [hloop] at hpre

/-- The calls are the sequence up to the first success, which gives the answer. -/
theorem callLoop_spec {R : Type} (complete : Nat → ProviderDeployment → Option R) (n : Nat)
    (ds : List ProviderDeployment) :
    (callLoop complete n ds).1.map Prod.fst <+: ds ∧
    ((callLoop complete n ds).1 = [] → ds = []) ∧
    (∀ c ∈ (callLoop complete n ds).1.dropLast, c.2 = false) ∧
    ((callLoop complete n ds).2.isSome = true ↔ ∃ c ∈ (callLoop complete n ds).1, c.2 = true) := by
  induction ds generalizing n with
  | nil => simp [callLoop]
  | cons d ds ih =>
    obtain ⟨hpre, -, hfailed, hanswer⟩ := ih (n + 1)
    rw [callLoop]
    split
    · simp
    · refine ⟨(List.prefix_cons_inj d).mpr hpre, nofun, fun c hc => ?_, by simp [hanswer]⟩
      cases hrest : (callLoop complete (n + 1) ds).1 with
      | nil => simp [hrest] at hc
      | cons c' calls =>
        rw [hrest] at hfailed hc
        rcases List.mem_cons.mp hc with rfl | hc
        · rfl
        · exact hfailed c hc

/-- A request is refused without a call exactly when no deployment serves any rung from its
own on.  Else it calls at most three times and at most two providers, stops at the first
success, and calls only deployments that are up and serve the lowest rung that is served,
in the cloud of the cell when one of those is there. -/
theorem callWithFailover_spec {R : Type} (complete : Nat → ProviderDeployment → Option R)
    (ladder : ModelLadder) (modelAlias : String) :
    (callWithFailover deployments standing cellCloud complete ladder modelAlias = none ↔
      ∀ a ∈ aliasesFrom ladder modelAlias, ∀ d ∈ deployments, ¬Serves standing a d) ∧
    ∀ calls answer,
      callWithFailover deployments standing cellCloud complete ladder modelAlias =
        some (calls, answer) →
      calls ≠ [] ∧ calls.length ≤ 3 ∧
      (∃ ps : List String, ps.length ≤ 2 ∧ ∀ c ∈ calls, c.1.provider ∈ ps) ∧
      (∀ c ∈ calls.dropLast, c.2 = false) ∧
      (answer.isSome = true ↔ ∃ c ∈ calls, c.2 = true) ∧
      ∃ below served above, aliasesFrom ladder modelAlias = below ++ served :: above ∧
        (∀ a ∈ below, ∀ d ∈ deployments, ¬Serves standing a d) ∧
        ∀ c ∈ calls, c.1 ∈ deployments ∧ Serves standing served c.1 ∧
          (inCell cellCloud c.1 = true ∨
            ∀ e ∈ deployments, Serves standing served e → inCell cellCloud e = false) := by
  unfold callWithFailover
  rcases planAlong_cases deployments standing cellCloud (aliasesFrom ladder modelAlias) with
    ⟨heq, hall⟩ | ⟨below, served, above, hsplit, hbelow, hne, heq⟩
  · rw [heq]
    exact ⟨iff_of_true rfl hall, nofun⟩
  · rw [heq]
    refine ⟨iff_of_false nofun fun hall => ?_, ?_⟩
    · exact hne (candidates_eq_nil_iff.mpr (hall served (by simp [hsplit])))
    · rintro calls answer h
      obtain ⟨hfst, hempty, hfailed, hanswer⟩ := callLoop_spec complete 0
        (attemptPlan 3 2 (candidates deployments standing cellCloud served).deployments)
      rw [Option.map_some, Option.some_inj] at h
      rw [h] at hfst hempty hfailed hanswer
      have hmem : ∀ c ∈ calls, c.1 ∈ attemptPlan 3 2 _ := fun c hc =>
        hfst.subset (List.mem_map_of_mem hc)
      obtain ⟨-, hfrom, ps, hps, hproviders⟩ := @attemptLoop_spec 3 2
        (candidates deployments standing cellCloud served).deployments [] [] (Nat.zero_le 2)
        (List.forall_mem_nil _)
      refine ⟨fun hcalls => ?_, ?_, ⟨ps, hps, fun c hc => ?_⟩, hfailed, hanswer, below, served,
        above, hsplit, hbelow, fun c hc => ?_⟩
      · exact attemptPlan_ne_nil hne (hempty hcalls)
      · have hle := hfst.length_le
        rw [List.length_map] at hle
        exact hle.trans (List.length_take_le _ _)
      · exact hproviders _ (List.mem_of_mem_take (hmem c hc))
      · exact mem_candidates ((hfrom _ (List.mem_of_mem_take (hmem c hc))).resolve_left
          List.not_mem_nil)

end Routing

end Windrose.Gateway
