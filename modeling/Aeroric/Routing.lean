import Aeroric.CooldownTable
import Aeroric.SmoothRotation

/-! The order in which the candidates of a route are tried. -/
namespace Aeroric.Routing

structure Candidate where
  connectionId : String
  upstreamModel : String
  priority : ℤ
  weight : ℕ
  free : Bool
  deriving DecidableEq

inductive PoolStrategy
  | priority
  | fillFirst
  | leastUsed
  | pace
  | freeFirst
  | roundRobin
  | weightedRoundRobin
  deriving DecidableEq

structure UsageCounters where
  requests : Table String ℕ
  cursor : Table String ℕ
  smooth : Table String (Table String ℤ)

def coolingUntil (cooldowns : Table String ℕ) (c : Candidate) : ℕ :=
  ConfigRoutes.coolingUntil cooldowns ⟨c.connectionId, c.upstreamModel⟩

def ready (cooldowns : Table String ℕ) (now : ℕ) (c : Candidate) : Bool :=
  coolingUntil cooldowns c ≤ now

def sortByKey {κ : Type} [LinearOrder κ] (key : Candidate → κ) (list : List Candidate) :
    List Candidate := list.insertionSort fun a b => key a ≤ key b

def baseKey (c : Candidate) : ℤ ×ₗ String := toLex (c.priority, c.connectionId)

def weightIn (running : Table String ℤ) (id : String) : ℤ := (running.get id).getD 0

def addWeights (bucket : List Candidate) (running : Table String ℤ) : Table String ℤ :=
  bucket.foldl (fun running c =>
    running.set c.connectionId (weightIn running c.connectionId + c.weight)) running

def bestFrom (value : String → ℤ) : ℕ → ℕ × Candidate → List Candidate → ℕ × Candidate
  | _, best, [] => best
  | index, best, c :: rest =>
    bestFrom value (index + 1)
      (if value best.2.connectionId < value c.connectionId then (index, c) else best) rest

def smoothTurn (bucket : List Candidate) (running : Table String ℤ) :
    List Candidate × Table String ℤ :=
  match bucket with
  | [] => ([], running)
  | first :: _ =>
    let total := (bucket.map fun c => (c.weight : ℤ)).sum
    let running := addWeights bucket running
    let best := bestFrom (weightIn running) 0 (0, first) bucket
    (best.2 :: bucket.eraseIdx best.1,
      running.set best.2.connectionId (weightIn running best.2.connectionId - total))

def rotated (strategy : PoolStrategy) (routeKey : String) (bucket : List Candidate)
    (usage : UsageCounters) : List Candidate × UsageCounters :=
  if strategy = .roundRobin then
    let cursor := (usage.cursor.get routeKey).getD 0
    (bucket.rotate (cursor % bucket.length),
      { usage with cursor := usage.cursor.set routeKey ((cursor + 1) % 2 ^ 64) })
  else
    let turn := smoothTurn bucket ((usage.smooth.get routeKey).getD .empty)
    (turn.1, { usage with smooth := usage.smooth.set routeKey turn.2 })

def arranged (list : List Candidate) (strategy : PoolStrategy) (routeKey : String)
    (cooldowns : Table String ℕ) (usage : UsageCounters) (now : ℕ) :
    List Candidate × UsageCounters :=
  let list := sortByKey baseKey list
  match strategy with
  | .priority | .fillFirst => (list, usage)
  | .leastUsed | .pace =>
    (sortByKey (fun c => toLex (c.priority, (usage.requests.get c.connectionId).getD 0)) list, usage)
  | .freeFirst => (sortByKey (fun c => toLex (!c.free, c.priority)) list, usage)
  | .roundRobin | .weightedRoundRobin =>
    -- only inside the best priority that has a ready member
    match ((list.filter (ready cooldowns now)).map (·.priority)).min? with
    | none => (list, usage)
    | some top =>
      let parts := list.partition fun c => c.priority = top && ready cooldowns now c
      let turn := rotated strategy routeKey parts.1 usage
      (turn.1 ++ parts.2, turn.2)

def order (list : List Candidate) (strategy : PoolStrategy) (routeKey : String)
    (sticky : Option String) (cooldowns : Table String ℕ) (usage : UsageCounters) (now : ℕ) :
    List Candidate × UsageCounters :=
  let (list, usage) := arranged list strategy routeKey cooldowns usage now
  let list :=
    match sticky.bind fun id => list.find? (·.connectionId = id) with
    | some pinned => pinned :: list.erase pinned
    | none => list
  let (ready, waiting) := list.partition (ready cooldowns now)
  (ready ++ sortByKey (coolingUntil cooldowns) waiting, usage)

/-- What a call is made with, besides the counters. -/
structure Call where
  list : List Candidate
  cooldowns : Table String ℕ
  now : ℕ

namespace Call

def ready (call : Call) : Candidate → Bool := Routing.ready call.cooldowns call.now

def leads (call : Call) (c : Candidate) : Bool :=
  call.ready c && call.list.all fun d => !call.ready d || c.priority ≤ d.priority

def leaders (call : Call) : List Candidate := call.list.filter call.leads

def order (call : Call) (strategy : PoolStrategy) (routeKey : String) (usage : UsageCounters) :
    List Candidate × UsageCounters :=
  Routing.order call.list strategy routeKey none call.cooldowns usage call.now

end Call

/-- The counters before a call of a sequence of calls for one route. -/
def usageAt (calls : ℕ → Call) (strategy : PoolStrategy) (routeKey : String)
    (usage : UsageCounters) : ℕ → UsageCounters
  | 0 => usage
  | n + 1 => ((calls n).order strategy routeKey (usageAt calls strategy routeKey usage n)).2

def firstAt (calls : ℕ → Call) (strategy : PoolStrategy) (routeKey : String)
    (usage : UsageCounters) (n : ℕ) : Option Candidate :=
  ((calls n).order strategy routeKey (usageAt calls strategy routeKey usage n)).1.head?

def runningAt (calls : ℕ → Call) (routeKey : String) (usage : UsageCounters) (n : ℕ) : String → ℤ :=
  weightIn (((usageAt calls .weightedRoundRobin routeKey usage n).smooth.get routeKey).getD .empty)

lemma sortByKey_perm {κ : Type} [LinearOrder κ] (key : Candidate → κ) (list : List Candidate) :
    (sortByKey key list).Perm list := List.perm_insertionSort _ list

lemma sortByKey_sorted {κ : Type} [LinearOrder κ] (key : Candidate → κ) (list : List Candidate) :
    (sortByKey key list).Pairwise fun a b => key a ≤ key b := by
  have : Std.Total fun a b : Candidate => key a ≤ key b := ⟨fun a b => le_total (key a) (key b)⟩
  have : IsTrans Candidate fun a b => key a ≤ key b := ⟨fun _ _ _ => le_trans⟩
  exact List.pairwise_insertionSort _ list

section Bucket
variable {call : Call} {members : List Candidate} {strategy : PoolStrategy}
  (hids : (members.map (·.connectionId)).Nodup) (hleaders : call.leaders.Perm members)
include hids hleaders

lemma sorted_leaders : (sortByKey baseKey call.list).filter call.leads = sortByKey baseKey members := by
  have hperm := (((sortByKey_perm baseKey call.list).filter _).trans hleaders).trans
    (sortByKey_perm baseKey members).symm
  refine hperm.eq_of_pairwise ?_ ((sortByKey_sorted baseKey call.list).filter _)
    (sortByKey_sorted baseKey members)
  intro a b ha hb hab hba
  have hkey := toLex.injective (le_antisymm hab hba)
  have hmem : ∀ {c}, c ∈ sortByKey baseKey members → c ∈ members :=
    (sortByKey_perm baseKey members).mem_iff.mp
  exact List.inj_on_of_nodup_map hids (hmem (hperm.mem_iff.mp ha)) (hmem hb) (Prod.mk.inj hkey).2

variable (hstrategy : strategy = .roundRobin ∨ strategy = .weightedRoundRobin) (hne : members ≠ [])
include hstrategy hne

lemma arranged_eq (routeKey : String) (usage : UsageCounters) : ∃ rest,
    arranged call.list strategy routeKey call.cooldowns usage call.now =
      ((rotated strategy routeKey (sortByKey baseKey members) usage).1 ++ rest,
        (rotated strategy routeKey (sortByKey baseKey members) usage).2) := by
  obtain ⟨leader, hleader⟩ := List.exists_mem_of_ne_nil _ hne
  have hleads := List.mem_filter.mp (hleaders.mem_iff.mpr hleader)
  have hready : call.ready leader = true := by simpa [Call.leads] using (Bool.and_eq_true_iff.mp hleads.2).1
  have hall : ∀ d ∈ call.list, call.ready d = true → leader.priority ≤ d.priority := by
    simpa [Call.leads, hready, or_iff_not_imp_left] using hleads.2
  have hmin : (((sortByKey baseKey call.list).filter call.ready).map (·.priority)).min? =
      some leader.priority := by
    refine List.min?_eq_some_iff.mpr ⟨?_, ?_⟩
    · exact List.mem_map_of_mem (List.mem_filter.mpr
        ⟨(sortByKey_perm _ _).mem_iff.mpr hleads.1, hready⟩)
    · intro b hb
      obtain ⟨d, hd, rfl⟩ := List.mem_map.mp hb
      obtain ⟨hd, hdready⟩ := List.mem_filter.mp hd
      exact hall d ((sortByKey_perm _ _).mem_iff.mp hd) hdready
  have hbucket : (sortByKey baseKey call.list).filter
      (fun c => c.priority = leader.priority && call.ready c) = sortByKey baseKey members := by
    rw [← sorted_leaders hids hleaders]
    refine List.filter_congr fun c hc => ?_
    have hc := (sortByKey_perm _ _).mem_iff.mp hc
    rw [Bool.eq_iff_iff]
    simp only [Call.leads, Bool.and_eq_true, decide_eq_true_eq, List.all_eq_true, Bool.or_eq_true,
      Bool.not_eq_true']
    constructor
    · rintro ⟨hpriority, hcready⟩
      refine ⟨hcready, fun d hd => ?_⟩
      rw [hpriority, ← Bool.not_eq_true]
      exact or_iff_not_imp_left.mpr fun hdready => hall d hd (not_not.mp hdready)
    · rintro ⟨hcready, hbest⟩
      have hle := (hbest leader hleads.1).resolve_left (by simp [hready])
      exact ⟨le_antisymm hle (hall c hc hcready), hcready⟩
  rcases hstrategy with rfl | rfl
  all_goals
    simp only [arranged, Call.ready] at hmin hbucket ⊢
    rw [hmin]
    simp only [List.partition_eq_filter_filter, hbucket]
    exact ⟨_, rfl⟩

lemma order_eq (routeKey : String) (usage : UsageCounters) {c : Candidate} (hc : c ∈ members)
    (hfirst : (rotated strategy routeKey (sortByKey baseKey members) usage).1.head? = some c) :
    (call.order strategy routeKey usage).1.head? = some c ∧
      (call.order strategy routeKey usage).2 =
        (rotated strategy routeKey (sortByKey baseKey members) usage).2 := by
  obtain ⟨rest, hrest⟩ := arranged_eq hids hleaders hstrategy hne routeKey usage
  obtain ⟨tail, htail⟩ := List.head?_eq_some_iff.mp hfirst
  have hready : Routing.ready call.cooldowns call.now c = true :=
    (Bool.and_eq_true_iff.mp (List.mem_filter.mp (hleaders.mem_iff.mpr hc)).2).1
  simp only [Call.order, order, hrest, htail, Option.bind_none, List.partition_eq_filter_filter]
  simp [hready]

end Bucket

/-! The turns of a bucket are those of a smooth rotation of its connections. -/

def weightOf (bucket : List Candidate) (id : String) : ℕ :=
  ((bucket.filter (·.connectionId = id)).map (·.weight)).sum

lemma weightOf_cons (c : Candidate) (bucket : List Candidate) (id : String) :
    weightOf (c :: bucket) id = (if c.connectionId = id then c.weight else 0) + weightOf bucket id := by
  unfold weightOf
  rw [List.filter_cons]
  split <;> simp_all

lemma weightOf_of_notMem {bucket : List Candidate} {id : String}
    (h : id ∉ (bucket.map (·.connectionId)).toFinset) : weightOf bucket id = 0 := by
  have hnone : bucket.filter (·.connectionId = id) = [] := by
    rw [List.filter_eq_nil_iff]
    intro c hc heq
    exact h (List.mem_toFinset.mpr (List.mem_map.mpr ⟨c, hc, by simpa using heq⟩))
  rw [weightOf, hnone]
  rfl

lemma weightOf_mem {bucket : List Candidate} (hids : (bucket.map (·.connectionId)).Nodup)
    {c : Candidate} (hc : c ∈ bucket) : weightOf bucket c.connectionId = c.weight := by
  induction bucket with
  | nil => cases hc
  | cons d bucket ih =>
    obtain ⟨hd, hids⟩ := List.nodup_cons.mp hids
    rw [weightOf_cons]
    rcases List.mem_cons.mp hc with rfl | hc
    · rw [if_pos rfl, weightOf_of_notMem (by simpa using hd), Nat.add_zero]
    · have hne : d.connectionId ≠ c.connectionId := fun h => hd (List.mem_map.mpr ⟨c, hc, h.symm⟩)
      rw [if_neg hne, Nat.zero_add, ih hids hc]

lemma sum_weightOf (bucket : List Candidate) {ids : Finset String}
    (h : ∀ c ∈ bucket, c.connectionId ∈ ids) :
    ∑ id ∈ ids, weightOf bucket id = (bucket.map (·.weight)).sum := by
  induction bucket with
  | nil => simp [weightOf]
  | cons c bucket ih =>
    simp only [weightOf_cons, Finset.sum_add_distrib, Finset.sum_ite_eq,
      h c List.mem_cons_self, if_true, List.map_cons, List.sum_cons]
    rw [ih fun d hd => h d (List.mem_cons_of_mem _ hd)]

lemma weightIn_set (running : Table String ℤ) (id : String) (value : ℤ) (id' : String) :
    weightIn (running.set id value) id' = if id' = id then value else weightIn running id' := by
  unfold weightIn
  split
  · next h => rw [h, Table.get_set_self, Option.getD_some]
  · next h => rw [Table.get_set_of_ne h]

lemma weightIn_addWeights (bucket : List Candidate) (running : Table String ℤ) (id : String) :
    weightIn (addWeights bucket running) id = weightIn running id + weightOf bucket id := by
  induction bucket generalizing running with
  | nil => simp [addWeights, weightOf]
  | cons c bucket ih =>
    have hcons : addWeights (c :: bucket) running = addWeights bucket
      (running.set c.connectionId (weightIn running c.connectionId + c.weight)) := rfl
    rw [hcons, ih, weightIn_set, weightOf_cons]
    by_cases h : id = c.connectionId
    · rw [if_pos h, if_pos h.symm, h]
      push_cast
      ring
    · rw [if_neg h, if_neg (Ne.symm h), Nat.zero_add]

lemma bestFrom_spec (value : String → ℤ) {bucket rest : List Candidate} (index : ℕ)
    (best : ℕ × Candidate) (hrest : bucket.drop index = rest) (hbest : bucket[best.1]? = some best.2) :
    bucket[(bestFrom value index best rest).1]? = some (bestFrom value index best rest).2 ∧
      value best.2.connectionId ≤ value (bestFrom value index best rest).2.connectionId ∧
      ∀ c ∈ rest, value c.connectionId ≤ value (bestFrom value index best rest).2.connectionId := by
  induction rest generalizing index best with
  | nil => exact ⟨hbest, le_refl _, by simp⟩
  | cons c rest ih =>
    have hc : bucket[index]? = some c := by
      rw [← List.head?_drop, hrest, List.head?_cons]
    have hnext : bucket.drop (index + 1) = rest := by
      rw [← List.tail_drop, hrest, List.tail_cons]
    unfold bestFrom
    split
    · next hlt =>
      obtain ⟨hfound, hle, hall⟩ := ih _ (index, c) hnext hc
      exact ⟨hfound, hlt.le.trans hle, List.forall_mem_cons.mpr ⟨hle, hall⟩⟩
    · next hge =>
      obtain ⟨hfound, hle, hall⟩ := ih _ _ hnext hbest
      exact ⟨hfound, hle, List.forall_mem_cons.mpr ⟨(not_lt.mp hge).trans hle, hall⟩⟩

section Smooth
variable (bucket : List Candidate) (hne : bucket ≠ [])

def best (value : String → ℤ) : ℕ × Candidate := bestFrom value 0 (0, bucket.head hne) bucket

lemma best_spec (value : String → ℤ) :
    bucket[(best bucket hne value).1]? = some (best bucket hne value).2 ∧
      ∀ c ∈ bucket, value c.connectionId ≤ value (best bucket hne value).2.connectionId := by
  have h := bestFrom_spec value 0 (0, bucket.head hne) bucket.drop_zero
    (by rw [← List.head?_eq_getElem?, List.head?_eq_some_head hne])
  exact ⟨h.1, h.2.2⟩

def rotation : Rotation String where
  members := (bucket.map (·.connectionId)).toFinset
  weight := weightOf bucket
  weight_of_notMem := fun _ h => weightOf_of_notMem h
  choose := fun value => (best bucket hne value).2.connectionId
  choose_mem := fun value => List.mem_toFinset.mpr
    (List.mem_map_of_mem (List.mem_of_getElem? (best_spec bucket hne value).1))
  le_choose := fun value id hid => by
    obtain ⟨c, hc, rfl⟩ := List.mem_map.mp (List.mem_toFinset.mp hid)
    exact (best_spec bucket hne value).2 c hc

lemma total_rotation : (rotation bucket hne).total = (bucket.map (·.weight)).sum :=
  sum_weightOf bucket fun _ hc => List.mem_toFinset.mpr (List.mem_map_of_mem hc)

lemma smoothTurn_eq (running : Table String ℤ) :
    (smoothTurn bucket running).1.head? =
        some (best bucket hne ((rotation bucket hne).gain (weightIn running))).2 ∧
      weightIn (smoothTurn bucket running).2 = (rotation bucket hne).step (weightIn running) := by
  have hgain : weightIn (addWeights bucket running) = (rotation bucket hne).gain (weightIn running) :=
    funext (weightIn_addWeights bucket running)
  have hcons : smoothTurn bucket running =
      ((best bucket hne (weightIn (addWeights bucket running))).2 ::
        bucket.eraseIdx (best bucket hne (weightIn (addWeights bucket running))).1,
      (addWeights bucket running).set
        (best bucket hne (weightIn (addWeights bucket running))).2.connectionId
        (weightIn (addWeights bucket running)
          (best bucket hne (weightIn (addWeights bucket running))).2.connectionId -
            (bucket.map fun c => (c.weight : ℤ)).sum)) := by
    cases bucket with
    | nil => exact absurd rfl hne
    | cons c rest => rfl
  have htotal : (bucket.map fun c => (c.weight : ℤ)).sum = (rotation bucket hne).total := by
    rw [total_rotation, Nat.cast_list_sum, List.map_map]
    rfl
  rw [hcons, hgain]
  refine ⟨rfl, funext fun id => ?_⟩
  rw [weightIn_set, hgain, htotal, Rotation.step]
  by_cases h : id = (rotation bucket hne).choose ((rotation bucket hne).gain (weightIn running))
  · rw [if_pos h, h]
    exact if_pos rfl
  · rw [if_neg h, sub_zero]
    exact if_neg h

end Smooth

section Run
variable {members : List Candidate} {calls : ℕ → Call} {routeKey : String} {usage : UsageCounters}

lemma sortByKey_ne_nil (hne : members ≠ []) : sortByKey baseKey members ≠ [] := by
  intro h
  have hperm := sortByKey_perm baseKey members
  rw [h] at hperm
  exact hne hperm.nil_eq.symm

lemma nodup_sortByKey (hids : (members.map (·.connectionId)).Nodup) :
    ((sortByKey baseKey members).map (·.connectionId)).Nodup :=
  ((sortByKey_perm baseKey members).map _).nodup_iff.mpr hids

variable (hids : (members.map (·.connectionId)).Nodup)
  (hcalls : ∀ n, (calls n).leaders.Perm members) (hne : members ≠ [])
include hids hcalls hne

lemma smooth_run (hfresh : usage.smooth.get routeKey = none) (n : ℕ) :
    let r := rotation (sortByKey baseKey members) (sortByKey_ne_nil hne)
    runningAt calls routeKey usage n = r.state n ∧
      firstAt calls .weightedRoundRobin routeKey usage n =
        some (best (sortByKey baseKey members) (sortByKey_ne_nil hne) (r.gain (r.state n))).2 := by
  intro r
  have hturn : ∀ n, runningAt calls routeKey usage n = r.state n →
      firstAt calls .weightedRoundRobin routeKey usage n =
        some (best (sortByKey baseKey members) (sortByKey_ne_nil hne) (r.gain (r.state n))).2 ∧
      runningAt calls routeKey usage (n + 1) = r.step (r.state n) := by
    intro n hn
    obtain ⟨hhead, hstep⟩ := smoothTurn_eq _ (sortByKey_ne_nil hne)
      (((usageAt calls .weightedRoundRobin routeKey usage n).smooth.get routeKey).getD .empty)
    rw [show weightIn _ = r.state n from hn] at hhead hstep
    have hmem : (best (sortByKey baseKey members) (sortByKey_ne_nil hne) (r.gain (r.state n))).2 ∈
        members :=
      (sortByKey_perm _ _).mem_iff.mp (List.mem_of_getElem? (best_spec _ _ _).1)
    obtain ⟨hfirst, husage⟩ := order_eq hids (hcalls n) (.inr rfl) hne routeKey
      (usageAt calls .weightedRoundRobin routeKey usage n) hmem hhead
    refine ⟨hfirst, ?_⟩
    have hsucc : usageAt calls .weightedRoundRobin routeKey usage (n + 1) = _ := husage
    rw [runningAt, hsucc, ← hstep]
    simp [rotated]
  have hstate : runningAt calls routeKey usage n = r.state n := by
    induction n with
    | zero =>
      funext id
      simp [runningAt, usageAt, hfresh, weightIn, Rotation.state]
    | succ n ih =>
      rw [(hturn n ih).2]
      exact (Function.iterate_succ_apply' ..).symm
  exact ⟨hstate, (hturn n hstate).1⟩

lemma round_run (hfresh : usage.cursor.get routeKey = none) (n : ℕ) (hn : n < 2 ^ 64) :
    ((usageAt calls .roundRobin routeKey usage n).cursor.get routeKey).getD 0 = n ∧
      firstAt calls .roundRobin routeKey usage n =
        (sortByKey baseKey members)[n % members.length]? := by
  have hlength : (sortByKey baseKey members).length = members.length := (sortByKey_perm _ _).length_eq
  have hturn : ∀ n, ((usageAt calls .roundRobin routeKey usage n).cursor.get routeKey).getD 0 = n →
      firstAt calls .roundRobin routeKey usage n = (sortByKey baseKey members)[n % members.length]? ∧
      ((usageAt calls .roundRobin routeKey usage (n + 1)).cursor.get routeKey).getD 0 =
        (n + 1) % 2 ^ 64 := by
    intro n hcursor
    have hlt : n % members.length < (sortByKey baseKey members).length := by
      rw [hlength]
      exact Nat.mod_lt _ (List.length_pos_iff.mpr hne)
    have hhead : (rotated .roundRobin routeKey (sortByKey baseKey members)
        (usageAt calls .roundRobin routeKey usage n)).1.head? =
          some (sortByKey baseKey members)[n % members.length] := by
      simp only [rotated, if_true, hcursor, hlength]
      rw [List.head?_rotate hlt, List.getElem?_eq_getElem hlt]
    obtain ⟨hfirst, husage⟩ := order_eq hids (hcalls n) (.inl rfl) hne routeKey
      (usageAt calls .roundRobin routeKey usage n)
      ((sortByKey_perm _ _).mem_iff.mp (List.getElem_mem hlt)) hhead
    rw [List.getElem?_eq_getElem hlt]
    refine ⟨hfirst, ?_⟩
    have hsucc : usageAt calls .roundRobin routeKey usage (n + 1) = _ := husage
    rw [hsucc]
    simp [rotated, hcursor]
  have hcursor : ((usageAt calls .roundRobin routeKey usage n).cursor.get routeKey).getD 0 = n := by
    induction n with
    | zero => simp [usageAt, hfresh]
    | succ n ih => rw [(hturn n (ih (by omega))).2, Nat.mod_eq_of_lt hn]
  exact ⟨hcursor, (hturn n hcursor).1⟩

end Run

lemma card_mod_eq {n i : ℕ} (hi : i < n) (k : ℕ) :
    (Finset.filter (· % n = i) (Finset.Ico k (k + n))).card = 1 := by
  have hmod : ∀ j, j % n = i ↔ j ≡ i [MOD n] := fun j => by rw [Nat.ModEq, Nat.mod_eq_of_lt hi]
  simp only [hmod]
  rw [Nat.filter_Ico_card_eq_of_periodic k n _ fun j => by simp [Nat.ModEq],
    Nat.count_modEq_card _ (by omega), Nat.div_self (by omega)]
  simp

/-- However the others come and go: while the ready members of the best priority stay the same, in
every stretch of calls as long as their total weight each is first as often as its weight says, and
after each such period from the start the running weights are gone; without weights each is first
once in as many calls as there are members. -/
theorem rotation_exact {members : List Candidate} (hids : (members.map (·.connectionId)).Nodup)
    {calls : ℕ → Call} (hcalls : ∀ n, (calls n).leaders.Perm members) (routeKey : String) (usage : UsageCounters) :
    (usage.smooth.get routeKey = none →
      (∀ c ∈ members, ∀ k, (Finset.filter
        (fun n => firstAt calls .weightedRoundRobin routeKey usage n = some c)
        (Finset.Ico k (k + (members.map (·.weight)).sum))).card = c.weight) ∧
      ∀ m id, runningAt calls routeKey usage (m * (members.map (·.weight)).sum) id = 0) ∧
    (usage.cursor.get routeKey = none → ∀ c ∈ members, ∀ k, k + members.length ≤ 2 ^ 64 →
      (Finset.filter (fun n => firstAt calls .roundRobin routeKey usage n = some c)
        (Finset.Ico k (k + members.length))).card = 1) := by
  by_cases hne : members = []
  · subst hne
    refine ⟨fun hfresh => ⟨by simp, fun m id => ?_⟩, by simp⟩
    simp [runningAt, usageAt, hfresh, weightIn]
  have hperm := sortByKey_perm baseKey members
  have hbucket := nodup_sortByKey hids
  constructor
  · intro hfresh
    have htotal : (rotation _ (sortByKey_ne_nil hne)).total = (members.map (·.weight)).sum := by
      rw [total_rotation]
      exact (hperm.map _).sum_eq
    constructor
    · intro c hc k
      have hc := hperm.mem_iff.mpr hc
      have hfirst : ∀ n, firstAt calls .weightedRoundRobin routeKey usage n = some c ↔
          (rotation _ (sortByKey_ne_nil hne)).chosen n = c.connectionId := by
        intro n
        rw [(smooth_run hids hcalls hne hfresh n).2, Option.some_inj]
        refine ⟨fun h => h ▸ rfl, fun h => ?_⟩
        exact List.inj_on_of_nodup_map hbucket (List.mem_of_getElem? (best_spec _ _ _).1) hc h
      simp only [hfirst]
      rw [← htotal, Rotation.card_chosen _ (List.mem_toFinset.mpr (List.mem_map_of_mem hc))]
      exact weightOf_mem hbucket hc
    · intro m id
      rw [(smooth_run hids hcalls hne hfresh _).1, ← htotal, Rotation.state_mul_total]
  · intro hfresh c hc k hk
    obtain ⟨i, hi, rfl⟩ := List.getElem_of_mem (hperm.mem_iff.mpr hc)
    rw [hperm.length_eq] at hi
    rw [← card_mod_eq hi k]
    congr 1
    refine Finset.filter_congr fun n hn => ?_
    have hlt : n % members.length < (sortByKey baseKey members).length := by
      rw [hperm.length_eq]
      exact Nat.mod_lt _ (by omega)
    rw [(round_run hids hcalls hne hfresh n (by have := Finset.mem_Ico.mp hn; omega)).2,
      List.getElem?_eq_getElem hlt, Option.some_inj]
    exact (List.Nodup.of_map _ hbucket).getElem_inj_iff

/-- Two connections with the weights 2 and 1, a third that rests. -/
def threeConnections : Call where
  list := [⟨"c", "m", 0, 5, false⟩, ⟨"b", "m", 1, 1, false⟩, ⟨"a", "m", 1, 2, false⟩]
  cooldowns := Table.empty.set "c" 100
  now := 10

theorem rotation_exact_threeConnections :
    (Finset.filter (fun n => firstAt (fun _ => threeConnections) .weightedRoundRobin "k"
      ⟨.empty, .empty, .empty⟩ n = some ⟨"a", "m", 1, 2, false⟩) (Finset.Ico 1 4)).card = 2 := by
  have hleaders : threeConnections.leaders.Perm [⟨"b", "m", 1, 1, false⟩, ⟨"a", "m", 1, 2, false⟩] := by
    decide
  exact ((rotation_exact (by decide) (fun _ => hleaders) "k" ⟨.empty, .empty, .empty⟩).1 rfl).1 _
    (by simp) 1

end Aeroric.Routing
