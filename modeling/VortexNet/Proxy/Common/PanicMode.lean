import VortexNet.Proxy.Common.RoundRobin

/-!
# The panic mode

`Selector::getNextServer()` for any weights, whatever a sum comes to that C++
leaves undefined: `int` is the value that the machine gives an expression of the
type, which is its own value where the type has it. The failure branch after the
loop is dead: a pass that skips dead nodes is only made where the percentage is
at least 20, and then somebody is alive.
-/

namespace VortexNet.RoundRobin

variable {value value' : Int → Option Int} {nodes nodes' : List ServerNode} {node : ServerNode}
  {scan scan' : Scan} {panic_mode : Bool} {i k : Nat}

-- ---------------------------------------------------------------------------
-- More sums with a value
-- ---------------------------------------------------------------------------

section
variable (hmono : ∀ x y, value x = some y → value' x = some y)
include hmono

theorem visit_mono {r : ServerNode × Scan} (h : visit value i node scan = some r) :
    visit value' i node scan = some r := by
  simp only [visit, Option.bind_eq_bind, Option.bind_eq_some_iff] at h
  obtain ⟨weight, hweight, total, htotal, heq⟩ := h
  rw [visit, hmono _ _ hweight, Option.bind_eq_bind, Option.bind_some, hmono _ _ htotal]
  exact heq

theorem scanFrom_mono {r : List ServerNode × Scan}
    (h : scanFrom value panic_mode i nodes scan = some r) :
    scanFrom value' panic_mode i nodes scan = some r := by
  induction nodes generalizing i scan r with
  | nil => exact h
  | cons node nodes ih =>
    simp only [scanFrom] at h ⊢
    split at h
    · rename_i hskip
      obtain ⟨r₁, hr₁, rfl⟩ := Option.map_eq_some_iff.mp h
      rw [if_pos hskip, ih hr₁]
      rfl
    · rename_i hskip
      simp only [Option.bind_eq_bind, Option.bind_eq_some_iff] at h
      obtain ⟨⟨node', scan₁⟩, hvisit, ⟨nodes₁, scan₂⟩, hscan, heq⟩ := h
      rw [if_neg hskip, visit_mono hmono hvisit, Option.bind_eq_bind, Option.bind_some, ih hscan]
      exact heq

theorem aliveCount_mono {alive_count : Int} (h : aliveCount value nodes = some alive_count) :
    aliveCount value' nodes = some alive_count := by
  unfold aliveCount at h ⊢
  revert h
  generalize (0 : Int) = count
  induction nodes generalizing count with
  | nil => exact id
  | cons node nodes ih =>
    intro h
    rw [List.foldlM_cons] at h ⊢
    obtain ⟨next, hnext, h⟩ := Option.bind_eq_some_iff.mp h
    refine Option.bind_eq_some_iff.mpr ⟨next, ?_, ih next h⟩
    by_cases hnode : node.is_alive_ = true
    · rw [if_pos hnode] at hnext ⊢
      exact hmono _ _ hnext
    · rw [if_neg hnode] at hnext ⊢
      exact hnext

theorem alivePercent_mono {percent : Nat} (h : alivePercent value nodes = some percent) :
    alivePercent value' nodes = some percent := by
  simp only [alivePercent, Option.bind_eq_bind, Option.bind_eq_some_iff] at h
  obtain ⟨alive_count, hcount, product, hproduct, heq⟩ := h
  rw [alivePercent, aliveCount_mono hmono hcount, Option.bind_eq_bind, Option.bind_some,
    hmono _ _ hproduct]
  exact heq

/-- A selection that has a result keeps it when more sums have a value. -/
theorem getNextServer_mono {r : Option Nat × List ServerNode}
    (h : getNextServer value nodes = some r) : getNextServer value' nodes = some r := by
  rw [getNextServer] at h ⊢
  split at h
  · rename_i hnil
    rw [if_pos hnil]
    exact h
  · rename_i hne
    simp only [Option.bind_eq_bind, Option.bind_eq_some_iff] at h
    obtain ⟨percent, hpercent, ⟨nodes₁, scan⟩, hscan, h⟩ := h
    rw [if_neg hne, alivePercent_mono hmono hpercent, Option.bind_eq_bind, Option.bind_some,
      scanFrom_mono hmono hscan, Option.bind_eq_bind, Option.bind_some]
    cases hbest : scan.best with
    | none =>
      simp only [hbest] at h ⊢
      exact h
    | some best =>
      simp only [hbest] at h ⊢
      cases hnode : nodes₁[best.1]? with
      | none =>
        simp only [hnode] at h
        cases h
      | some node =>
        simp only [hnode] at h ⊢
        obtain ⟨weight, hweight, heq⟩ := Option.bind_eq_some_iff.mp h
        rw [hmono _ _ hweight]
        exact heq

end

-- ---------------------------------------------------------------------------
-- The pass
-- ---------------------------------------------------------------------------

def Considered (panic_mode : Bool) (node : ServerNode) : Prop :=
  node.is_alive_ = true ∨ panic_mode = true

theorem not_considered : ¬ Considered panic_mode node ↔
    (!node.is_alive_ && !panic_mode) = true := by
  simp [Considered]

theorem scanFrom_cons (h : scanFrom value panic_mode i (node :: nodes) scan = some (nodes', scan')) :
    (¬ Considered panic_mode node ∧ ∃ rest, nodes' = node :: rest ∧
      scanFrom value panic_mode (i + 1) nodes scan = some (rest, scan')) ∨
    (Considered panic_mode node ∧ ∃ node₁ scan₁ rest, nodes' = node₁ :: rest ∧
      visit value i node scan = some (node₁, scan₁) ∧
      scanFrom value panic_mode (i + 1) nodes scan₁ = some (rest, scan')) := by
  rw [scanFrom] at h
  split at h
  · rename_i hskip
    obtain ⟨⟨rest, scan₁⟩, hscan, heq⟩ := Option.map_eq_some_iff.mp h
    cases heq
    exact .inl ⟨not_considered.mpr hskip, rest, rfl, hscan⟩
  · rename_i hskip
    simp only [Option.bind_eq_bind, Option.bind_eq_some_iff] at h
    obtain ⟨⟨node₁, scan₁⟩, hvisit, ⟨rest, scan₂⟩, hscan, heq⟩ := h
    cases heq
    exact .inr ⟨not_not.mp (mt not_considered.mp hskip), node₁, scan₁, rest, rfl, hvisit, hscan⟩

theorem visit_best {r : ServerNode × Scan} (h : visit value i node scan = some r) :
    ∃ best, r.2.best = some best ∧ (scan.best = some best ∨ best.1 = i) := by
  simp only [visit, Option.bind_eq_bind, Option.bind_eq_some_iff] at h
  obtain ⟨weight, -, total, -, heq⟩ := h
  cases heq
  cases scan.best with
  | none => exact ⟨_, rfl, .inr rfl⟩
  | some old =>
    refine ⟨_, rfl, ?_⟩
    split
    · exact .inr rfl
    · exact .inl rfl

theorem scanFrom_best (h : scanFrom value panic_mode i nodes scan = some (nodes', scan')) :
    scan'.best = scan.best ∨ ∃ k node weight, nodes[k]? = some node ∧ Considered panic_mode node ∧
      scan'.best = some (i + k, weight) := by
  induction nodes generalizing i scan nodes' with
  | nil =>
    cases h
    exact .inl rfl
  | cons node nodes ih =>
    rcases scanFrom_cons h with ⟨-, rest, -, hscan⟩ | ⟨hc, node₁, scan₁, rest, -, hvisit, hscan⟩
    · rcases ih hscan with hsame | ⟨k, node₁, weight, hk, hc₁, hbest⟩
      · exact .inl hsame
      · exact .inr ⟨k + 1, node₁, weight, hk, hc₁, by rw [hbest, Nat.add_right_comm, Nat.add_assoc]⟩
    · obtain ⟨⟨j, weight⟩, hbest, hold⟩ := visit_best hvisit
      rcases ih hscan with hsame | ⟨k, node₂, weight, hk, hc₁, hbest⟩
      · rcases hold with hold | rfl
        · exact .inl (hsame.trans (hbest.trans hold.symm))
        · exact .inr ⟨0, node, weight, rfl, hc, hsame.trans hbest⟩
      · exact .inr ⟨k + 1, node₂, weight, hk, hc₁, by rw [hbest, Nat.add_right_comm, Nat.add_assoc]⟩

theorem scanFrom_best_ne_none (h : scanFrom value panic_mode i nodes scan = some (nodes', scan'))
    (hsome : scan.best ≠ none ∨ ∃ node ∈ nodes, Considered panic_mode node) :
    scan'.best ≠ none := by
  induction nodes generalizing i scan nodes' with
  | nil =>
    cases h
    exact hsome.resolve_right fun ⟨_, hmem, _⟩ => absurd hmem List.not_mem_nil
  | cons node nodes ih =>
    rcases scanFrom_cons h with ⟨hc, rest, -, hscan⟩ | ⟨hc, node₁, scan₁, rest, -, hvisit, hscan⟩
    · refine ih hscan (hsome.imp_right ?_)
      rintro ⟨node₁, hmem, hc₁⟩
      rcases List.mem_cons.mp hmem with rfl | hmem
      · exact absurd hc₁ hc
      · exact ⟨node₁, hmem, hc₁⟩
    · obtain ⟨best, hbest, -⟩ := visit_best hvisit
      exact ih hscan (.inl (hbest ▸ Option.some_ne_none best))

theorem scanFrom_skipped (h : scanFrom value panic_mode i nodes scan = some (nodes', scan'))
    (hc : ¬ Considered panic_mode node) (hk : nodes[k]? = some node) : nodes'[k]? = some node := by
  induction nodes generalizing i k scan nodes' with
  | nil => cases hk
  | cons first nodes ih =>
    rcases scanFrom_cons h with ⟨-, rest, rfl, hscan⟩ | ⟨hfirst, node₁, scan₁, rest, rfl, -, hscan⟩
    · cases k with
      | zero => exact hk
      | succ k =>
        rw [List.getElem?_cons_succ] at hk ⊢
        exact ih hscan hk
    · cases k with
      | zero =>
        cases hk
        exact absurd hfirst hc
      | succ k =>
        rw [List.getElem?_cons_succ] at hk ⊢
        exact ih hscan hk

theorem scanFrom_length (h : scanFrom value panic_mode i nodes scan = some (nodes', scan')) :
    nodes'.length = nodes.length := by
  induction nodes generalizing i scan nodes' with
  | nil =>
    cases h
    rfl
  | cons node nodes ih =>
    rcases scanFrom_cons h with ⟨-, rest, rfl, hscan⟩ | ⟨-, node₁, scan₁, rest, rfl, -, hscan⟩ <;>
      rw [List.length_cons, List.length_cons, ih hscan]

-- ---------------------------------------------------------------------------
-- The selection
-- ---------------------------------------------------------------------------

theorem aliveCount_of_dead (hdead : ∀ node ∈ nodes, ¬ node.is_alive_ = true) :
    aliveCount value nodes = some 0 := by
  unfold aliveCount
  induction nodes with
  | nil => rfl
  | cons node nodes ih =>
    obtain ⟨hnode, hdead⟩ := List.forall_mem_cons.mp hdead
    rw [List.foldlM_cons, if_neg hnode]
    exact ih hdead

theorem exists_considered {percent : Nat} (hzero : value 0 = some 0) (hne : nodes ≠ [])
    (hpercent : alivePercent value nodes = some percent) :
    ∃ node ∈ nodes, Considered (decide (percent < 20)) node := by
  by_contra hnone
  simp only [Considered, not_exists, not_and, not_or, decide_eq_true_eq, Nat.not_lt] at hnone
  obtain ⟨node, hnode⟩ := List.exists_mem_of_ne_nil nodes hne
  have hle := (hnone node hnode).2
  rw [alivePercent, aliveCount_of_dead fun node hnode => (hnone node hnode).1, Option.bind_eq_bind,
    Option.bind_some, Int.zero_mul, hzero] at hpercent
  have hnil := Option.some.inj hpercent
  rw [Int.zero_emod, Int.toNat_zero, Nat.zero_div] at hnil
  omega

namespace AnyInt

section
variable (int : Int → Int)

theorem scanFrom_isSome (panic_mode : Bool) (i : Nat) (nodes : List ServerNode) (scan : Scan) :
    ∃ r, scanFrom (some ∘ int) panic_mode i nodes scan = some r := by
  induction nodes generalizing i scan with
  | nil => exact ⟨_, rfl⟩
  | cons node nodes ih =>
    rw [scanFrom]
    split
    · obtain ⟨r, hr⟩ := ih (i + 1) scan
      exact ⟨_, by rw [hr]; rfl⟩
    · obtain ⟨⟨node₁, scan₁⟩, hvisit⟩ : ∃ r, visit (some ∘ int) i node scan = some r := ⟨_, rfl⟩
      obtain ⟨r, hr⟩ := ih (i + 1) scan₁
      exact ⟨(node₁ :: r.1, r.2), by simp [hvisit, hr]⟩

theorem alivePercent_isSome (nodes : List ServerNode) :
    ∃ percent, alivePercent (some ∘ int) nodes = some percent := by
  suffices ∀ count, ∃ alive_count, nodes.foldlM (fun alive_count node =>
      if node.is_alive_ then (some ∘ int) (alive_count + 1) else some alive_count) count =
        some alive_count by
    obtain ⟨alive_count, hcount⟩ := this 0
    exact ⟨_, by rw [alivePercent, aliveCount, hcount]; rfl⟩
  induction nodes with
  | nil => exact fun count => ⟨count, rfl⟩
  | cons node nodes ih =>
    intro count
    rw [List.foldlM_cons]
    by_cases hnode : node.is_alive_ = true
    · obtain ⟨alive_count, hcount⟩ := ih (int (count + 1))
      exact ⟨alive_count, by rw [if_pos hnode]; exact hcount⟩
    · obtain ⟨alive_count, hcount⟩ := ih count
      exact ⟨alive_count, by rw [if_neg hnode]; exact hcount⟩

end

variable {int : Int → Int}

/-- What a selection from a group that is not empty returns: the index of a member that was not
skipped. Who was skipped is as before. -/
theorem getNextServer_considered {percent : Nat} (hint : int 0 = 0) (hne : nodes ≠ [])
    (hpercent : alivePercent (some ∘ int) nodes = some percent) :
    ∃ (best : Nat) (node : ServerNode) (nodes' : List ServerNode), nodes[best]? = some node ∧
      getNextServer (some ∘ int) nodes = some (some best, nodes') ∧
      Considered (decide (percent < 20)) node ∧
      ∀ (k : Nat) (dead : ServerNode), nodes[k]? = some dead →
        ¬ Considered (decide (percent < 20)) dead → nodes'[k]? = some dead := by
  obtain ⟨⟨nodes₁, scan⟩, hscan⟩ := scanFrom_isSome int (percent < 20) 0 nodes {}
  have hzero : (some ∘ int) 0 = some 0 := congrArg some hint
  have hsome := scanFrom_best_ne_none hscan (.inr (exists_considered hzero hne hpercent))
  obtain ⟨best, node, weight, hbest, hc, hpick⟩ := (scanFrom_best hscan).resolve_left hsome
  rw [Nat.zero_add] at hpick
  have hlt : best < nodes₁.length := by
    rw [scanFrom_length hscan]
    exact (List.getElem?_eq_some_iff.mp hbest).1
  have hnode₁ : nodes₁[best]? = some nodes₁[best] := List.getElem?_eq_getElem hlt
  refine ⟨best, node, nodes₁.set best { nodes₁[best] with
    current_weight_ := int (nodes₁[best].current_weight_ - scan.total) }, hbest, ?_, hc,
    fun k dead hk hdead => ?_⟩
  · simp [getNextServer, hne, hpercent, hscan, hpick, hnode₁]
  · have hkb : best ≠ k := by
      rintro rfl
      cases hbest.symm.trans hk
      exact hdead hc
    rw [List.getElem?_set_ne hkb]
    exact scanFrom_skipped hscan hdead hk

/-- For a group with any weights, current weights and status: a member is returned, and where
the percentage is at least 20 one that is alive, with no change to the dead. -/
theorem returns_member (hint : ∀ x, -2 ^ 31 ≤ x → x < 2 ^ 31 → int x = x) (hne : nodes ≠ []) :
    ∃ (percent best : Nat) (node : ServerNode) (nodes' : List ServerNode),
      alivePercent (some ∘ int) nodes = some percent ∧ nodes[best]? = some node ∧
      getNextServer (some ∘ int) nodes = some (some best, nodes') ∧
      (20 ≤ percent → node.is_alive_ = true ∧
        ∀ (k : Nat) (dead : ServerNode), nodes[k]? = some dead → dead.is_alive_ = false →
          nodes'[k]? = some dead) := by
  obtain ⟨percent, hpercent⟩ := alivePercent_isSome int nodes
  obtain ⟨best, node, nodes', hbest, hpick, hc, hskipped⟩ :=
    getNextServer_considered (hint 0 (by decide) (by decide)) hne hpercent
  refine ⟨percent, best, node, nodes', hpercent, hbest, hpick, fun hle => ?_⟩
  have hcalm : ¬ decide (percent < 20) = true := by simpa using hle
  refine ⟨hc.resolve_right hcalm, fun k dead hk hdead => hskipped k dead hk ?_⟩
  rintro (halive | hpanic)
  · rw [hdead] at halive
    cases halive
  · exact hcalm hpanic

/-- A selection that has a result with the sums in range has the same one here. -/
theorem getNextServer_agrees (hint : ∀ x, -2 ^ 31 ≤ x → x < 2 ^ 31 → int x = x)
    {r : Option Nat × List ServerNode} (h : getNextServer RoundRobin.int nodes = some r) :
    getNextServer (some ∘ int) nodes = some r := by
  refine getNextServer_mono (fun x y hxy => ?_) h
  unfold RoundRobin.int at hxy
  split at hxy
  · rename_i hrange
    rw [Function.comp_apply, hint x hrange.1 hrange.2, hxy]
  · cases hxy

/-- One of five is alive, and the weights are at the end of the range. -/
def extremes : List ServerNode :=
  [⟨[97], 2147483647, false, 7⟩, ⟨[98], 2147483647, true, 2147483647⟩, ⟨[99], -3, false, 0⟩,
    ⟨[100], 1, false, 0⟩, ⟨[101], 0, false, -2⟩]

/-- In two's complement the sums wrap. -/
theorem returns_member_wrapping : ∃ (best : Nat) (node : ServerNode) (nodes' : List ServerNode),
    extremes[best]? = some node ∧
      getNextServer (some ∘ (Int.bmod · (2 ^ 32))) extremes = some (some best, nodes') ∧
      node.is_alive_ = true := by
  obtain ⟨percent, best, node, nodes', hpercent, hbest, hpick, hcalm⟩ :=
    @returns_member extremes (Int.bmod · (2 ^ 32))
      (fun x hlow hhigh => Int.bmod_eq_of_le (by omega) (by omega)) (by decide)
  cases hpercent.symm.trans
    (by rfl : alivePercent (some ∘ (Int.bmod · (2 ^ 32))) extremes = some 20)
  exact ⟨best, node, nodes', hbest, hpick, (hcalm (by decide)).1⟩

end AnyInt

end VortexNet.RoundRobin
