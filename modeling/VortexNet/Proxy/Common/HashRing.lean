import VortexNet.Lib.Circle
import VortexNet.Proxy.Common.Selector

/-!
# What a ring of virtual nodes says

`Describes hash members ring` says that the map holds the virtual nodes of the
members and nothing else. `addNode` and `removeNode` keep it where no two names
of virtual nodes have one hash, and `getNextServer` reads the next point on the
circle. So a backend that comes takes keys over from the others, and one that
goes gives up no keys but its own.
-/

namespace VortexNet.Selector

open Picohttpparser
open Circles (Next SingleValued)

def vnode_name (addr : Bytes) (i : Nat) : Bytes := addr ++ ascii "#" ++ ascii (toString i)

structure Describes (hash : Bytes → Nat) (members : Bytes → Prop) (ring : List (Nat × Bytes)) :
    Prop where
  sorted : ring.Pairwise fun e f => e.1 < f.1
  mem : ∀ e, e ∈ ring ↔ members e.2 ∧ ∃ i < kVirtualNodes, e.1 = hash (vnode_name e.2 i)

/-- No two names of virtual nodes of these addresses have the same hash. -/
def NoCollision (hash : Bytes → Nat) (A : Bytes → Prop) : Prop :=
  ∀ a b, A a → A b → ∀ i < kVirtualNodes, ∀ j < kVirtualNodes,
    hash (vnode_name a i) = hash (vnode_name b j) → vnode_name a i = vnode_name b j

variable {hash : Bytes → Nat} {members A : Bytes → Prop} {addr a b key n : Bytes}
  {ring : List (Nat × Bytes)} {e f : Nat × Bytes} {i j partition : Nat} {group : List Bytes}
  {s : Selector}

-- ---------------------------------------------------------------------------
-- Names of virtual nodes
-- ---------------------------------------------------------------------------

theorem sharp_not_mem (hi : i < kVirtualNodes) : (35 : UInt8) ∉ ascii (toString i) := by
  have hall : ∀ i < 100, (35 : UInt8) ∉ ascii (toString i) := by decide +kernel
  exact hall i hi

/-- The address can be read off a name: it ends at the last `#`. -/
theorem vnode_name_inj (hi : i < kVirtualNodes) (hj : j < kVirtualNodes)
    (h : vnode_name a i = vnode_name b j) : a = b := by
  have hread : ∀ a i, i < kVirtualNodes →
      (vnode_name a i).reverse.dropWhile (· ≠ (35 : UInt8)) = 35 :: a.reverse := by
    intro a i hi
    have hsharp : ∀ c ∈ (ascii (toString i)).reverse, c ≠ (35 : UInt8) := by
      rintro c hc rfl
      exact sharp_not_mem hi (List.mem_reverse.mp hc)
    rw [vnode_name, List.reverse_append, List.reverse_append,
      List.dropWhile_append_of_pos (by simpa using hsharp)]
    rfl
  have hcons := (hread a i hi).symm.trans (h ▸ hread b j hj)
  exact List.reverse_inj.mp (List.cons.inj hcons).2

theorem NoCollision.addr_eq (hc : NoCollision hash A) (ha : A a) (hb : A b) (hi : i < kVirtualNodes)
    (hj : j < kVirtualNodes) (h : hash (vnode_name a i) = hash (vnode_name b j)) : a = b :=
  vnode_name_inj hi hj (hc a b ha hb i hi j hj h)

-- ---------------------------------------------------------------------------
-- The map
-- ---------------------------------------------------------------------------

abbrev Sorted (ring : List (Nat × Bytes)) : Prop := ring.Pairwise fun e f => e.1 < f.1

theorem mem_insert_iff (hs : Sorted ring) :
    e ∈ insert partition addr ring ↔ e = (partition, addr) ∨ e ∈ ring ∧ e.1 ≠ partition := by
  induction ring with
  | nil => simp [insert]
  | cons x ring ih =>
    obtain ⟨hx, hs⟩ := List.pairwise_cons.mp hs
    have hne : ∀ y ∈ ring, partition ≤ x.1 → y.1 ≠ partition := fun y hy hle heq =>
      absurd (hx y hy) (by omega)
    simp only [insert]
    split
    · rename_i hlt
      have hall : ∀ y ∈ x :: ring, y.1 ≠ partition := by
        rintro y hy rfl
        rcases List.mem_cons.mp hy with rfl | hy
        · exact absurd hlt (lt_irrefl _)
        · exact hne y hy hlt.le rfl
      rw [List.mem_cons]
      exact or_congr_right ⟨fun h => ⟨h, hall e h⟩, And.left⟩
    · split
      · rename_i heq
        rw [List.mem_cons, List.mem_cons]
        refine or_congr_right ⟨fun h => ⟨.inr h, hne e h heq.le⟩, ?_⟩
        rintro ⟨rfl | h, hpart⟩
        · exact absurd heq.symm hpart
        · exact h
      · rename_i heq
        rw [List.mem_cons, List.mem_cons, ih hs]
        constructor
        · rintro (rfl | rfl | ⟨h, hpart⟩)
          · exact .inr ⟨.inl rfl, Ne.symm heq⟩
          · exact .inl rfl
          · exact .inr ⟨.inr h, hpart⟩
        · rintro (rfl | ⟨rfl | h, hpart⟩)
          · exact .inr (.inl rfl)
          · exact .inl rfl
          · exact .inr (.inr ⟨h, hpart⟩)

theorem Sorted.insert (hs : Sorted ring) : Sorted (insert partition addr ring) := by
  induction ring with
  | nil => exact List.pairwise_singleton _ _
  | cons x ring ih =>
    obtain ⟨hx, hs'⟩ := List.pairwise_cons.mp hs
    simp only [Selector.insert]
    split
    · rename_i hlt
      refine List.pairwise_cons.mpr ⟨fun y hy => ?_, hs⟩
      rcases List.mem_cons.mp hy with rfl | hy
      · exact hlt
      · exact hlt.trans (hx y hy)
    · split
      · rename_i heq
        exact List.pairwise_cons.mpr ⟨fun y hy => heq ▸ hx y hy, hs'⟩
      · refine List.pairwise_cons.mpr ⟨fun y hy => ?_, ih hs'⟩
        rcases (mem_insert_iff hs').mp hy with rfl | ⟨hy, -⟩
        · omega
        · exact hx y hy

theorem addVirtualNodes_spec (hash : Bytes → Nat) (addr : Bytes) (hs : Sorted ring) (l : List Nat) :
    Sorted (l.foldl (addVirtualNode hash addr) ring) ∧
      ∀ e, e ∈ l.foldl (addVirtualNode hash addr) ring ↔
        (e.2 = addr ∧ ∃ i ∈ l, e.1 = hash (vnode_name addr i)) ∨
          e ∈ ring ∧ ∀ i ∈ l, e.1 ≠ hash (vnode_name addr i) := by
  induction l generalizing ring with
  | nil => simp [hs]
  | cons i l ih =>
    have hinsert : Sorted (addVirtualNode hash addr ring i) := hs.insert
    obtain ⟨hsorted, hmem⟩ := ih hinsert
    refine ⟨hsorted, fun e => ?_⟩
    rw [List.foldl_cons, hmem, addVirtualNode, mem_insert_iff hs]
    constructor
    · rintro (⟨haddr, j, hj, he⟩ | ⟨rfl | ⟨he, hi⟩, hl⟩)
      · exact .inl ⟨haddr, j, List.mem_cons_of_mem _ hj, he⟩
      · exact .inl ⟨rfl, i, List.mem_cons_self, rfl⟩
      · exact .inr ⟨he, List.forall_mem_cons.mpr ⟨hi, hl⟩⟩
    · rintro (⟨haddr, j, hj, he⟩ | ⟨he, hall⟩)
      · by_cases hl : ∃ i ∈ l, e.1 = hash (vnode_name addr i)
        · exact .inl ⟨haddr, hl⟩
        · rcases List.mem_cons.mp hj with rfl | hj
          · exact .inr ⟨.inl (Prod.ext he haddr), fun i hi heq => hl ⟨i, hi, heq⟩⟩
          · exact absurd ⟨j, hj, he⟩ hl
      · obtain ⟨hi, hl⟩ := List.forall_mem_cons.mp hall
        exact .inr ⟨.inr ⟨he, hi⟩, hl⟩

theorem mem_eraseVirtualNodes (l : List Nat) : e ∈ l.foldl (eraseVirtualNode hash addr) ring ↔
    e ∈ ring ∧ ∀ i ∈ l, e.1 ≠ hash (vnode_name addr i) := by
  induction l generalizing ring with
  | nil => simp
  | cons i l ih =>
    rw [List.foldl_cons, ih, eraseVirtualNode, erase, List.mem_filter, List.forall_mem_cons,
      and_assoc, decide_eq_true_eq]
    rfl

theorem removeNode_ring : (removeNode hash s addr).ring_ =
    (List.range kVirtualNodes).foldl (eraseVirtualNode hash addr) s.ring_ := by
  rw [removeNode]

theorem eraseVirtualNodes_sublist (l : List Nat) :
    (l.foldl (eraseVirtualNode hash addr) ring).Sublist ring := by
  induction l generalizing ring with
  | nil => exact .refl _
  | cons i l ih => exact ih.trans List.filter_sublist

-- ---------------------------------------------------------------------------
-- Members come and go
-- ---------------------------------------------------------------------------

theorem Describes.addNode (h : Describes hash members s.ring_) (hc : NoCollision hash A)
    (hA : ∀ a, members a → A a) (haddr : A addr) :
    Describes hash (fun a => members a ∨ a = addr) (addNode hash s addr).ring_ := by
  obtain ⟨hsorted, hmem⟩ := addVirtualNodes_spec hash addr h.sorted (List.range kVirtualNodes)
  rw [addNode_ring]
  refine ⟨hsorted, fun e => ?_⟩
  rw [hmem, h.mem]
  simp only [List.mem_range]
  constructor
  · rintro (⟨rfl, i, hi, he⟩ | ⟨⟨hm, i, hi, he⟩, -⟩)
    · exact ⟨.inr rfl, i, hi, he⟩
    · exact ⟨.inl hm, i, hi, he⟩
  · rintro ⟨hm, i, hi, he⟩
    by_cases ha : e.2 = addr
    · exact .inl ⟨ha, i, hi, ha ▸ he⟩
    · have hmember := hm.resolve_right ha
      refine .inr ⟨⟨hmember, i, hi, he⟩, fun j hj hej => ha ?_⟩
      exact hc.addr_eq (hA _ hmember) haddr hi hj (he.symm.trans hej)

theorem Describes.removeNode (h : Describes hash members s.ring_) (hc : NoCollision hash A)
    (hA : ∀ a, members a → A a) (haddr : A addr) :
    Describes hash (fun a => members a ∧ a ≠ addr) (removeNode hash s addr).ring_ := by
  rw [removeNode_ring]
  refine ⟨h.sorted.sublist (eraseVirtualNodes_sublist _), fun e => ?_⟩
  rw [mem_eraseVirtualNodes, h.mem]
  simp only [List.mem_range]
  constructor
  · rintro ⟨⟨hm, i, hi, he⟩, hall⟩
    exact ⟨⟨hm, fun ha => hall i hi (ha ▸ he)⟩, i, hi, he⟩
  · rintro ⟨⟨hm, ha⟩, i, hi, he⟩
    refine ⟨⟨hm, i, hi, he⟩, fun j hj hej => ha ?_⟩
    exact hc.addr_eq (hA _ hm) haddr hi hj (he.symm.trans hej)

theorem Describes.congr (h : Describes hash members ring) (hiff : ∀ a, members a ↔ A a) :
    Describes hash A ring :=
  ⟨h.sorted, fun e => by rw [h.mem, hiff]⟩

theorem describes_nil : Describes hash (fun _ => False) [] := ⟨.nil, by simp⟩

theorem describes_addNodes (hs : Describes hash members s.ring_) (hc : NoCollision hash A)
    (hA : ∀ a, members a → A a) (hgroup : ∀ a ∈ group, A a) :
    Describes hash (fun a => members a ∨ a ∈ group) (group.foldl (addNode hash) s).ring_ := by
  induction group generalizing s members with
  | nil => exact hs.congr (by simp)
  | cons addr group ih =>
    obtain ⟨haddr, hgroup⟩ := List.forall_mem_cons.mp hgroup
    have hA' : ∀ a, members a ∨ a = addr → A a := by
      rintro a (ha | rfl)
      · exact hA a ha
      · exact haddr
    rw [List.foldl_cons]
    refine (ih (hs.addNode hc hA haddr) hA' hgroup).congr fun a => ?_
    rw [List.mem_cons, or_assoc]

theorem describes_ofGroup (hc : NoCollision hash A) (hgroup : ∀ a ∈ group, A a) :
    Describes hash (· ∈ group) (ofGroup hash group).ring_ := by
  rw [ofGroup]
  exact (describes_addNodes describes_nil hc (fun _ => False.elim) hgroup).congr fun _ => by simp

theorem Describes.unique {ring' : List (Nat × Bytes)} (h : Describes hash members ring)
    (h' : Describes hash members ring') : ring = ring' := by
  have hperm : ring.Perm ring' := by
    refine (List.perm_ext_iff_of_nodup ?_ ?_).mpr fun e => by rw [h.mem, h'.mem]
    · exact h.sorted.imp fun hlt heq => hlt.ne (congrArg Prod.fst heq)
    · exact h'.sorted.imp fun hlt heq => hlt.ne (congrArg Prod.fst heq)
  exact hperm.eq_of_pairwise (fun _ _ _ _ hef hfe => absurd hef hfe.asymm) h.sorted h'.sorted

-- ---------------------------------------------------------------------------
-- The answer
-- ---------------------------------------------------------------------------

/-- The answer belongs to the point that comes next, going round from the key's hash. -/
theorem getNextServer_next (hash : Bytes → Nat) (key : Bytes) (hs : Sorted s.ring_)
    (hne : s.ring_ ≠ []) : ∃ e, Next (· ∈ s.ring_) (hash key) e ∧ s.getNextServer hash key = e.2 := by
  unfold getNextServer
  cases hfind : s.ring_.find? fun e => hash key ≤ e.1 with
  | some e =>
    refine ⟨e, ⟨List.mem_of_find?_eq_some hfind, fun f hf => ?_⟩, rfl⟩
    have he : hash key ≤ e.1 := by simpa using List.find?_some hfind
    refine Circles.rank_le_of_le he fun hkf => ?_
    obtain ⟨-, before, after, hring, hbefore⟩ := List.find?_eq_some_iff_append.mp hfind
    rw [hring] at hf hs
    rcases List.mem_append.mp hf with hf | hf
    · exact absurd hkf (by simpa using hbefore f hf)
    · rcases List.mem_cons.mp hf with rfl | hf
      · exact le_refl _
      · exact ((List.pairwise_cons.mp (List.pairwise_append.mp hs).2.1).1 f hf).le
  | none =>
    have hall : ∀ f ∈ s.ring_, f.1 < hash key := by simpa using hfind
    obtain ⟨e, ring, hring⟩ := List.exists_cons_of_ne_nil hne
    rw [hring] at hs hall ⊢
    refine ⟨e, ⟨List.mem_cons_self, fun f hf => ?_⟩, rfl⟩
    refine Circles.rank_le_of_lt (hall f hf) ?_
    rcases List.mem_cons.mp hf with rfl | hf
    · exact le_refl _
    · exact ((List.pairwise_cons.mp hs).1 f hf).le

theorem Sorted.singleValued (hs : Sorted ring) : SingleValued (· ∈ ring) := by
  induction ring with
  | nil => exact fun _ _ he => absurd he List.not_mem_nil
  | cons x ring ih =>
    obtain ⟨hx, hs⟩ := List.pairwise_cons.mp hs
    intro e f he hf hkey
    rcases List.mem_cons.mp he with rfl | hmem <;> rcases List.mem_cons.mp hf with rfl | hmem'
    · rfl
    · exact absurd hkey (hx f hmem').ne
    · exact absurd hkey.symm (hx e hmem).ne
    · exact ih hs e f hmem hmem' hkey

theorem Describes.ne_nil (h : Describes hash members ring) (ha : members a) : ring ≠ [] := by
  have hmem : (hash (vnode_name a 0), a) ∈ ring :=
    (h.mem _).mpr ⟨ha, 0, by simp [kVirtualNodes], rfl⟩
  exact List.ne_nil_of_mem hmem

/-- The keys that a new backend changes go to it. -/
theorem getNextServer_added {s' : Selector} (h : Describes hash members s.ring_)
    (h' : Describes hash (fun a => members a ∨ a = n) s'.ring_) :
    s'.getNextServer hash key = s.getNextServer hash key ∨ s'.getNextServer hash key = n := by
  obtain ⟨f, hf, hanswer'⟩ := getNextServer_next hash key h'.sorted (h'.ne_nil (.inr rfl))
  rcases ((h'.mem f).mp hf.mem).1 with hmember | hnew
  · have hmem : f ∈ s.ring_ := (h.mem f).mpr ⟨hmember, ((h'.mem f).mp hf.mem).2⟩
    obtain ⟨e, he, hanswer⟩ := getNextServer_next hash key h.sorted (List.ne_nil_of_mem hmem)
    have hsub : ∀ x ∈ s.ring_, x ∈ s'.ring_ := fun x hx =>
      (h'.mem x).mpr (((h.mem x).mp hx).imp_left .inl)
    have hfe : f = e := (he.eq_or_added hf (Sorted.singleValued h.sorted) hsub).resolve_right (· hmem)
    exact .inl (by rw [hanswer', hanswer, hfe])
  · exact .inr (hanswer'.trans hnew)

/-- The keys of the other backends keep their answer when one goes. -/
theorem getNextServer_removed {s' : Selector} (h : Describes hash members s.ring_)
    (h' : Describes hash (fun a => members a ∧ a ≠ n) s'.ring_)
    (hkey : s.getNextServer hash key ≠ n) :
    s'.getNextServer hash key = s.getNextServer hash key := by
  have hsub : ∀ x ∈ s'.ring_, x ∈ s.ring_ := fun x hx =>
    (h.mem x).mpr (((h'.mem x).mp hx).imp_left And.left)
  by_cases hnil : s.ring_ = []
  · have hnil' : s'.ring_ = [] :=
      List.eq_nil_iff_forall_not_mem.mpr fun x hx => List.ne_nil_of_mem (hsub x hx) hnil
    rw [getNextServer, getNextServer, hnil, hnil']
  · obtain ⟨f, hf, hanswer⟩ := getNextServer_next hash key h.sorted hnil
    obtain ⟨hmember, hpoint⟩ := (h.mem f).mp hf.mem
    have hmem : f ∈ s'.ring_ := (h'.mem f).mpr ⟨⟨hmember, hanswer ▸ hkey⟩, hpoint⟩
    obtain ⟨e, he, hanswer'⟩ := getNextServer_next hash key h'.sorted (List.ne_nil_of_mem hmem)
    have hfe : f = e := (hf.of_subset hsub hmem).unique he (Sorted.singleValued h'.sorted)
    rw [hanswer', hanswer, hfe]

theorem consistent_hashing (hn : n ∉ group) (hc : NoCollision hash (· ∈ n :: group)) (key : Bytes) :
    ((addNode hash (ofGroup hash group) n).getNextServer hash key ≠
        (ofGroup hash group).getNextServer hash key →
      (addNode hash (ofGroup hash group) n).getNextServer hash key = n) ∧
    (∀ group', group'.Perm (n :: group) → (ofGroup hash group').getNextServer hash key ≠ n →
      (removeNode hash (ofGroup hash group') n).getNextServer hash key =
        (ofGroup hash group').getNextServer hash key) ∧
    (removeNode hash (addNode hash (ofGroup hash group) n) n).getNextServer hash key =
      (ofGroup hash group).getNextServer hash key ∧
    ∀ group', group'.Perm group →
      (ofGroup hash group').getNextServer hash key = (ofGroup hash group).getNextServer hash key := by
  have hgroup : ∀ a ∈ group, a ∈ n :: group := fun _ => List.mem_cons_of_mem _
  have hself : n ∈ n :: group := List.mem_cons_self
  have h := describes_ofGroup hc hgroup
  have hadd := h.addNode hc hgroup hself
  refine ⟨fun hne => (getNextServer_added h hadd).resolve_left hne, fun group' hperm hkey => ?_, ?_,
    fun group' hperm => ?_⟩
  · have hsub : ∀ a ∈ group', a ∈ n :: group := fun _ => hperm.mem_iff.mp
    have h' := describes_ofGroup hc hsub
    exact getNextServer_removed h' (h'.removeNode hc hsub hself) hkey
  · have hall : ∀ a, a ∈ group ∨ a = n → a ∈ n :: group := by
      rintro a (ha | rfl)
      · exact hgroup a ha
      · exact hself
    have hback := (hadd.removeNode hc hall hself).congr (A := (· ∈ group)) fun a => by
      constructor
      · rintro ⟨ha, hne⟩
        exact ha.resolve_right hne
      · intro ha
        exact ⟨.inl ha, fun hne => hn (hne ▸ ha)⟩
    rw [getNextServer, getNextServer, hback.unique h]
  · have h' := (describes_ofGroup hc fun a ha => hgroup a (hperm.mem_iff.mp ha)).congr
      (A := (· ∈ group)) fun a => hperm.mem_iff
    rw [getNextServer, getNextServer, h'.unique h]

/-- A hash without collisions: the bytes read as a number. -/
def positional (bs : Bytes) : Nat := bs.foldr (fun c h => h * 256 + c.toNat + 1) 0

theorem positional_injective : Function.Injective positional := by
  intro x
  induction x with
  | nil =>
    intro y h
    cases y with
    | nil => rfl
    | cons d y => exact absurd h (Nat.succ_ne_zero _).symm
  | cons c x ih =>
    intro y h
    cases y with
    | nil => exact absurd h (Nat.succ_ne_zero _)
    | cons d y =>
      simp only [positional, List.foldr_cons] at h ih
      have hc := c.toNat_lt
      have hd := d.toNat_lt
      have hcd : c.toNat = d.toNat := by omega
      rw [UInt8.toNat_inj.mp hcd, @ih y (by omega)]

theorem positional_noCollision : NoCollision positional A :=
  fun _ _ _ _ _ _ _ _ h => positional_injective h

theorem consistent_hashing_ports :
    (removeNode positional (addNode positional
      (ofGroup positional [ascii "127.0.0.1:8001", ascii "127.0.0.1:8002"]) (ascii "127.0.0.1:8003"))
      (ascii "127.0.0.1:8003")).getNextServer positional (ascii "10.0.0.7") =
    (ofGroup positional [ascii "127.0.0.1:8001", ascii "127.0.0.1:8002"]).getNextServer positional
      (ascii "10.0.0.7") :=
  (consistent_hashing (by decide) positional_noCollision (ascii "10.0.0.7")).2.2.1

end VortexNet.Selector
