import VortexNet.Http.Picohttpparser

/-!
# Server selection

The consistent hashing of `Selector.cc`. `ring_` is the `std::map` from hash
values to addresses, in key order, with an address as `toIpPort()` prints it.
-/

namespace VortexNet

open Picohttpparser

structure Selector where
  ring_ : List (Nat × Bytes) := []
  deriving DecidableEq

namespace Selector

/-- `getNextServer(key)`, with `std::hash` as a parameter: the entry at the first hash not
below the key's, or at the lowest one past the end. -/
def getNextServer (s : Selector) (hash : Bytes → Nat) (key : Bytes) : Bytes :=
  match s.ring_.find? fun e => hash key ≤ e.1 with
  | some e => e.2
  | none => match s.ring_ with
    | [] => ascii "0.0.0.0:0"
    | e :: _ => e.2

def kVirtualNodes : Nat := 100

/-- `(*ring_)[partition] = addr`. -/
def insert (partition : Nat) (addr : Bytes) : List (Nat × Bytes) → List (Nat × Bytes)
  | [] => [(partition, addr)]
  | e :: ring =>
    if partition < e.1 then (partition, addr) :: e :: ring
    else if partition = e.1 then (partition, addr) :: ring
    else e :: insert partition addr ring

def addVirtualNode (hash : Bytes → Nat) (addr : Bytes) (ring : List (Nat × Bytes)) (i : Nat) :
    List (Nat × Bytes) :=
  insert (hash (addr ++ ascii "#" ++ ascii (toString i))) addr ring

def addNode (hash : Bytes → Nat) (s : Selector) (addr : Bytes) : Selector where
  ring_ := (List.range kVirtualNodes).foldl (addVirtualNode hash addr) s.ring_

/-- `(*ring_).erase(partition)`. -/
def erase (partition : Nat) (ring : List (Nat × Bytes)) : List (Nat × Bytes) :=
  ring.filter fun e => e.1 ≠ partition

def eraseVirtualNode (hash : Bytes → Nat) (addr : Bytes) (ring : List (Nat × Bytes)) (i : Nat) :
    List (Nat × Bytes) :=
  erase (hash (addr ++ ascii "#" ++ ascii (toString i))) ring

def removeNode (hash : Bytes → Nat) (s : Selector) (addr : Bytes) : Selector where
  ring_ := (List.range kVirtualNodes).foldl (eraseVirtualNode hash addr) s.ring_

/-- `InetAddress::toIp` of an address as `toIpPort()` prints it. -/
def toIp (addr : Bytes) : Bytes := addr.takeWhile (· ≠ 58)

variable {s : Selector} {hash : Bytes → Nat} {addr key : Bytes} {partition : Nat}
  {ring : List (Nat × Bytes)}

theorem mem_insert (h : e ∈ insert partition addr ring) : e ∈ ring ∨ e.2 = addr := by
  induction ring with
  | nil => exact .inr (congrArg Prod.snd (List.mem_singleton.mp h))
  | cons x ring ih =>
    simp only [insert] at h
    split at h
    · rcases List.mem_cons.mp h with rfl | h
      · exact .inr rfl
      · exact .inl h
    · split at h
      · rcases List.mem_cons.mp h with rfl | h
        · exact .inr rfl
        · exact .inl (List.mem_cons_of_mem _ h)
      · rcases List.mem_cons.mp h with rfl | h
        · exact .inl List.mem_cons_self
        · exact (ih h).imp_left (List.mem_cons_of_mem _)

theorem insert_ne_nil : insert partition addr ring ≠ [] := by
  cases ring with
  | nil => simp [insert]
  | cons x ring =>
    simp only [insert]
    split
    · simp
    · split <;> simp

theorem mem_addVirtualNodes (l : List Nat) (h : e ∈ l.foldl (addVirtualNode hash addr) ring) :
    e ∈ ring ∨ e.2 = addr := by
  induction l generalizing ring with
  | nil => exact .inl h
  | cons i l ih =>
    rcases ih h with h | h
    · exact mem_insert h
    · exact .inr h

theorem addVirtualNodes_ne_nil {l : List Nat} (h : l ≠ []) :
    l.foldl (addVirtualNode hash addr) ring ≠ [] := by
  rcases List.eq_nil_or_concat l with rfl | ⟨l, i, rfl⟩
  · exact absurd rfl h
  · rw [List.concat_eq_append, List.foldl_append]
    exact insert_ne_nil

theorem addNode_ring : (addNode hash s addr).ring_ =
    (List.range kVirtualNodes).foldl (addVirtualNode hash addr) s.ring_ := by
  rw [addNode]

theorem addNode_ne_nil : (addNode hash s addr).ring_ ≠ [] := by
  rw [addNode_ring]
  refine addVirtualNodes_ne_nil (mt List.range_eq_nil.mp ?_)
  rw [kVirtualNodes]
  exact Nat.succ_ne_zero 99

theorem getNextServer_mem (h : s.ring_ ≠ []) (hash : Bytes → Nat) (key : Bytes) :
    ∃ e ∈ s.ring_, s.getNextServer hash key = e.2 := by
  unfold getNextServer
  split
  · rename_i e hfind
    exact ⟨e, List.mem_of_find?_eq_some hfind, rfl⟩
  · split
    · rename_i hnil
      exact absurd hnil h
    · rename_i e ring hring
      exact ⟨e, hring ▸ List.mem_cons_self, rfl⟩

/-- The selector of a group of backends. -/
def ofGroup (hash : Bytes → Nat) (serverGroup_ : List Bytes) : Selector :=
  serverGroup_.foldl (addNode hash) {}

theorem mem_addNodes (group : List Bytes) (h : e ∈ (group.foldl (addNode hash) s).ring_) :
    e ∈ s.ring_ ∨ e.2 ∈ group := by
  induction group generalizing s with
  | nil => exact .inl h
  | cons addr group ih =>
    rw [List.foldl_cons] at h
    rcases ih h with h | h
    · rw [addNode_ring] at h
      refine (mem_addVirtualNodes (List.range kVirtualNodes) h).imp_right ?_
      rintro rfl
      exact List.mem_cons_self
    · exact .inr (List.mem_cons_of_mem _ h)

theorem ofGroup_ne_nil {group : List Bytes} (h : group ≠ []) : (ofGroup hash group).ring_ ≠ [] := by
  rcases List.eq_nil_or_concat group with rfl | ⟨group, addr, rfl⟩
  · exact absurd rfl h
  · rw [ofGroup, List.concat_eq_append, List.foldl_append]
    exact addNode_ne_nil

theorem getNextServer_ofGroup {group : List Bytes} (h : group ≠ []) :
    (ofGroup hash group).getNextServer hash key ∈ group := by
  obtain ⟨e, he, heq⟩ := getNextServer_mem (ofGroup_ne_nil h) hash key
  rw [heq]
  exact (mem_addNodes group he).resolve_left List.not_mem_nil

end Selector

end VortexNet
