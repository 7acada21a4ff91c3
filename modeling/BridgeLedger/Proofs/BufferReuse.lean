import BridgeLedger.KeyPool
import Mathlib.Data.List.Perm.Basic
import Mathlib.Data.List.Perm.Subperm
import Mathlib.Logic.Function.Basic

/-! Recycled key buffers cannot be told from new ones. Whatever is done with a pool, all its buffers keep their width, a
buffer is either idle or in use by one holder, and a balance key covers every byte that was left in its buffer. -/
namespace BridgeLedger.KeyPool

section Writing

variable {buffer rest bytes : Octets} {position : Nat}

@[simp] theorem length_rewrite : (rewrite buffer position bytes).length = buffer.length := by
  unfold rewrite
  split
  · simp only [overwrite, List.length_append, List.length_take, List.length_drop]
    omega
  · rfl

theorem rewrite_eq_overwrite (h : position + bytes.length ≤ buffer.length) :
    rewrite buffer position bytes = overwrite buffer position bytes := if_pos h

/-- What is written behind some bytes takes the place of as many bytes of the rest. -/
theorem overwrite_append (front : Octets) (h : front.length = position) :
    overwrite (front ++ rest) position bytes = front ++ bytes ++ rest.drop bytes.length := by
  rw [overwrite, ← h, List.take_left, List.drop_append]
  simp

/-- The four fields of a balance key lie side by side and fill a buffer of its length, so nothing of the old contents
stays. -/
theorem overwrite_balance (h : buffer.length = StateKey.cellKeyLength) (o : Address) (a : Identifier) :
    overwrite (overwrite (overwrite (overwrite buffer 0 [0]) 1 o.octets) 33 a.octets) 65
      (Wire.ofUInt16 StateKey.balanceChunks) = (StateKey.balance o a).octets := by
  have hkind : overwrite buffer 0 [0] = [0] ++ buffer.drop 1 := overwrite_append [] rfl
  have howner : overwrite ([0] ++ buffer.drop 1) 1 o.octets = [0] ++ o.octets ++ buffer.drop 33 := by
    rw [overwrite_append [0] (by simp), List.drop_drop, o.length_octets]
  have hasset : overwrite ([0] ++ o.octets ++ buffer.drop 33) 33 a.octets =
      [0] ++ o.octets ++ a.octets ++ buffer.drop 65 := by
    rw [overwrite_append _ (by simp), List.drop_drop, a.length_octets]
  rw [hkind, howner, hasset, overwrite_append _ (by simp), List.drop_drop]
  have hnothing : buffer.drop (65 + (Wire.ofUInt16 StateKey.balanceChunks).length) = [] :=
    List.drop_eq_nil_of_le (Nat.le_of_eq h)
  rw [hnothing]
  simp [StateKey.octets]

end Writing

structure Sized (p : KeyPool) (width : Nat) : Prop where
  width_eq : p.width = width
  length_eq : ∀ buffer ∈ p.idle, buffer.length = width
  few : p.idle.length ≤ maxIdle

namespace Sized

variable {p : KeyPool} {width : Nat}

theorem empty (width : Nat) : (empty width).Sized width :=
  ⟨rfl, fun _ h => absurd h List.not_mem_nil, Nat.zero_le _⟩

theorem acquire (h : p.Sized width) : p.acquire.1.length = width ∧ p.acquire.2.Sized width := by
  unfold KeyPool.acquire
  split
  next buffer rest hidle =>
    have hlength := h.length_eq
    have hfew := h.few
    rw [hidle] at hlength hfew
    obtain ⟨hbuffer, hrest⟩ := List.forall_mem_cons.1 hlength
    exact ⟨hbuffer, h.width_eq, hrest, Nat.le_of_succ_le hfew⟩
  next => exact ⟨List.length_replicate.trans h.width_eq, h⟩

theorem release (h : p.Sized width) (buffer : Octets) : (p.release buffer).Sized width := by
  unfold KeyPool.release
  split
  next hkept =>
    exact ⟨h.width_eq, List.forall_mem_cons.2 ⟨hkept.1.trans h.width_eq, h.length_eq⟩, hkept.2⟩
  next => exact h

/-- A balance key is the same on any buffer that the pool may hand out. -/
theorem balanceKey (h : p.Sized StateKey.cellKeyLength) (o : Address) (a : Identifier) :
    (p.balanceKey o a).1 = (StateKey.balance o a).octets :=
  overwrite_balance h.acquire.1 o a

end Sized

namespace Session

variable {s : Session} {width : Nat}

theorem step_acquire : s.step .acquire = ⟨s.pool.acquire.2, s.pool.acquire.1 :: s.held⟩ := rfl

structure Sized (s : Session) (width : Nat) : Prop where
  pool : s.pool.Sized width
  held : ∀ buffer ∈ s.held, buffer.length = width

theorem Sized.start (width : Nat) : (start width).Sized width :=
  ⟨.empty width, fun _ h => absurd h List.not_mem_nil⟩

theorem Sized.step (h : s.Sized width) (e : Step) : (s.step e).Sized width := by
  cases e with
  | acquire =>
    obtain ⟨hlength, hpool⟩ := h.pool.acquire
    exact ⟨hpool, List.forall_mem_cons.2 ⟨hlength, h.held⟩⟩
  | rewrite i position bytes =>
    refine ⟨h.pool, ?_⟩
    intro buffer hbuffer
    obtain ⟨n, hn⟩ := List.mem_iff_getElem?.1 hbuffer
    obtain ⟨old, hold, rfl⟩ := Option.map_eq_some_iff.1 ((List.getElem?_modify _ _ _ _).symm.trans hn)
    have hlength := h.held old (List.mem_of_getElem? hold)
    split
    · exact length_rewrite.trans hlength
    · exact hlength
  | release i =>
    rw [Session.step]
    split
    next => exact h
    next buffer _ => exact ⟨h.pool.release buffer, fun b hb => h.held b (List.mem_of_mem_eraseIdx hb)⟩

theorem Sized.run (h : s.Sized width) (steps : List Step) : (s.run steps).Sized width := by
  induction steps generalizing s with
  | nil => exact h
  | cons e steps ih => exact ih (h.step e)

end Session

def balanceSteps (o : Address) (a : Identifier) : List Step :=
  [.acquire, .rewrite 0 0 [0], .rewrite 0 1 o.octets, .rewrite 0 33 a.octets,
    .rewrite 0 65 (Wire.ofUInt16 StateKey.balanceChunks)]

/-- Writing a balance key is a run itself, after which the key is in use. -/
theorem Session.Sized.run_balanceSteps {s : Session} (h : s.Sized StateKey.cellKeyLength) (o : Address)
    (a : Identifier) :
    s.run (balanceSteps o a) = ⟨(s.pool.balanceKey o a).2, (s.pool.balanceKey o a).1 :: s.held⟩ := by
  have hlength : s.pool.acquire.1.length = 67 := h.pool.acquire.1
  have hkey : KeyPool.rewrite (KeyPool.rewrite (KeyPool.rewrite (KeyPool.rewrite s.pool.acquire.1 0 [0]) 1 o.octets)
      33 a.octets) 65 (Wire.ofUInt16 StateKey.balanceChunks) = (s.pool.balanceKey o a).1 := by
    rw [rewrite_eq_overwrite, rewrite_eq_overwrite, rewrite_eq_overwrite, rewrite_eq_overwrite]
    · rfl
    all_goals simp [hlength, Wire.ofUInt16]
  rw [← hkey]
  rfl

/-- A pool whose buffers lie in one memory. The pool and the holders know a buffer by its number alone, so that what is
written for one of them would be seen by all who know the same number. -/
structure Memory where
  width : Nat
  /-- how many buffers were made so far; they have the numbers below -/
  made : Nat
  contents : Nat → Octets
  idle : List Nat
  held : List Nat

namespace Memory

def start (width : Nat) : Memory := ⟨width, 0, fun _ => [], [], []⟩

def acquire (m : Memory) : Memory :=
  match m.idle with
  | n :: rest => { m with idle := rest, held := n :: m.held }
  | [] =>
    { m with
      made := m.made + 1
      contents := Function.update m.contents m.made (List.replicate m.width 0)
      held := m.made :: m.held }

def release (m : Memory) (n : Nat) : Memory :=
  if (m.contents n).length = m.width ∧ m.idle.length < maxIdle then { m with idle := n :: m.idle } else m

/-- One step. What is written over a buffer is written for everyone who knows its number. -/
def step (m : Memory) : Step → Memory
  | .acquire => m.acquire
  | .rewrite i position bytes =>
    match m.held[i]? with
    | none => m
    | some n => { m with contents := Function.update m.contents n (KeyPool.rewrite (m.contents n) position bytes) }
  | .release i =>
    match m.held[i]? with
    | none => m
    | some n => { m with held := m.held.eraseIdx i }.release n

def run (m : Memory) (steps : List Step) : Memory := steps.foldl step m

/-- What the pool and the holders find in their buffers. -/
def session (m : Memory) : Session := ⟨⟨m.width, m.idle.map m.contents⟩, m.held.map m.contents⟩

/-- Every buffer is known at one place only: to the pool, or to one holder. -/
structure Owned (m : Memory) : Prop where
  once : (m.idle ++ m.held).Nodup
  made : ∀ n ∈ m.idle ++ m.held, n < m.made

variable {m : Memory}

theorem Owned.start (width : Nat) : (start width).Owned :=
  ⟨List.nodup_nil, fun _ h => absurd h List.not_mem_nil⟩

/-- Buffers may change hands and be forgotten. -/
theorem Owned.of_subperm {m' : Memory} (h : m.Owned) (hmade : m'.made = m.made)
    (hsub : (m'.idle ++ m'.held).Subperm (m.idle ++ m.held)) : m'.Owned := by
  obtain ⟨l, hperm, hsublist⟩ := hsub
  refine ⟨hperm.nodup_iff.1 (h.once.sublist hsublist), ?_⟩
  intro n hn
  rw [hmade]
  exact h.made n (hsublist.subset (hperm.mem_iff.2 hn))

theorem Owned.acquire (h : m.Owned) : m.acquire.Owned := by
  unfold Memory.acquire
  split
  next n rest hidle =>
    refine h.of_subperm rfl ?_
    rw [hidle]
    exact List.perm_middle.subperm
  next hidle =>
    have hnew : ∀ n ∈ m.held, n < m.made := fun n hn => h.made n (List.mem_append_right _ hn)
    have honce := h.once
    rw [hidle, List.nil_append] at honce
    refine ⟨?_, ?_⟩
    · rw [hidle, List.nil_append, List.nodup_cons]
      exact ⟨fun hmem => Nat.lt_irrefl _ (hnew _ hmem), honce⟩
    · intro n hn
      rw [hidle, List.nil_append] at hn
      rcases List.mem_cons.1 hn with rfl | hn
      · exact Nat.lt_succ_self _
      · exact Nat.lt_succ_of_lt (hnew n hn)

theorem Owned.step (h : m.Owned) (e : Step) : (m.step e).Owned := by
  cases e with
  | acquire => exact h.acquire
  | rewrite i position bytes =>
    rw [Memory.step]
    split
    · exact h
    · exact ⟨h.once, h.made⟩
  | release i =>
    rw [Memory.step]
    split
    next => exact h
    next n hn =>
      unfold Memory.release
      obtain ⟨hi, rfl⟩ := List.getElem?_eq_some_iff.1 hn
      split
      · have hmoved : (m.held[i] :: m.idle ++ m.held.eraseIdx i).Perm (m.idle ++ m.held) :=
          List.perm_middle.symm.trans ((List.getElem_cons_eraseIdx_perm hi).append_left m.idle)
        exact h.of_subperm rfl hmoved.subperm
      · exact h.of_subperm rfl ((List.eraseIdx_sublist m.held i).append_left m.idle).subperm

theorem Owned.run (h : m.Owned) (steps : List Step) : (m.run steps).Owned := by
  induction steps generalizing m with
  | nil => exact h
  | cons e steps ih => exact ih (h.step e)

theorem session_acquire (h : m.Owned) : m.acquire.session = m.session.step .acquire := by
  rw [Session.step_acquire]
  unfold Memory.acquire KeyPool.acquire session
  split
  next n rest hidle => simp [hidle]
  next hidle =>
    have hother : ∀ n ∈ m.held, Function.update m.contents m.made (List.replicate m.width 0) n = m.contents n := by
      intro n hn
      exact Function.update_of_ne (Nat.ne_of_lt (h.made n (List.mem_append_right _ hn))) _ _
    simp only [hidle, List.map_nil, List.map_cons, Function.update_self, List.map_congr_left hother]

/-- Among different buffers, what is written over one changes that one. -/
private theorem map_update {numbers : List Nat} {i n : Nat} (hn : numbers[i]? = some n) (honce : numbers.Nodup)
    (contents : Nat → Octets) (f : Octets → Octets) :
    numbers.map (Function.update contents n (f (contents n))) = (numbers.map contents).modify i f := by
  induction numbers generalizing i with
  | nil => cases hn
  | cons k numbers ih =>
    obtain ⟨hk, honce⟩ := List.nodup_cons.1 honce
    cases i with
    | zero =>
      cases hn
      have hother : ∀ j ∈ numbers, Function.update contents n (f (contents n)) j = contents j :=
        fun j hj => Function.update_of_ne (fun (h : j = n) => hk (h ▸ hj)) _ _
      rw [List.map_cons, List.map_cons, List.modify_zero_cons, Function.update_self, List.map_congr_left hother]
    | succ i =>
      have hne : k ≠ n := fun h => hk (h ▸ List.mem_of_getElem? hn)
      rw [List.map_cons, List.map_cons, List.modify_succ_cons, Function.update_of_ne hne, ih hn honce]

/-- As every buffer is known at one place only, nobody but the holder sees what is written. -/
theorem session_step (h : m.Owned) (e : Step) : (m.step e).session = m.session.step e := by
  cases e with
  | acquire => exact session_acquire h
  | rewrite i position bytes =>
    obtain ⟨-, hheld, hapart⟩ := List.nodup_append.1 h.once
    rw [Memory.step, Session.step]
    split
    next hn =>
      have hend : m.session.held.length ≤ i := by
        rw [session, List.length_map]
        exact List.getElem?_eq_none_iff.1 hn
      rw [List.modify_eq_self hend]
    next n hn =>
      have hother : ∀ j ∈ m.idle,
          Function.update m.contents n (KeyPool.rewrite (m.contents n) position bytes) j = m.contents j :=
        fun j hj => Function.update_of_ne (hapart j hj n (List.mem_of_getElem? hn)) _ _
      unfold session
      rw [List.map_congr_left hother, map_update hn hheld m.contents fun b => KeyPool.rewrite b position bytes]
  | release i =>
    rw [Memory.step, Session.step, show m.session.held[i]? = m.held[i]?.map m.contents from List.getElem?_map]
    cases m.held[i]? with
    | none => rfl
    | some n =>
      simp only [Option.map_some, Memory.release, KeyPool.release, session, List.length_map]
      split
      · rw [List.eraseIdx_map]
        rfl
      · rw [List.eraseIdx_map]

theorem session_run (h : m.Owned) (steps : List Step) : (m.run steps).session = m.session.run steps := by
  induction steps generalizing m with
  | nil => rfl
  | cons e steps ih => exact (ih (h.step e)).trans (congrArg (Session.run · steps) (session_step h e))

end Memory

/-- Whatever is done with a pool of some width that starts without buffers, in whatever order: the pool and the holders
find in the shared memory what they would find in buffers of their own, no buffer is idle while it is in use, or in use
twice, the buffers handed out have the width of the pool, and no more than sixty-four are idle. A balance key has the bytes
of its record on every buffer that may be handed out, and writing one is again a sequence of such steps. -/
theorem reuse_unobservable (steps : List Step) :
    (∀ width,
      let m := (Memory.start width).run steps
      let s := (Session.start width).run steps
      m.session = s ∧ (∀ n ∈ m.held, n ∉ m.idle) ∧ m.held.Nodup ∧
      s.pool.acquire.1.length = width ∧ (∀ buffer ∈ s.held, buffer.length = width) ∧
      s.pool.idle.length ≤ 64) ∧
    ∀ (o : Address) (a : Identifier),
      let s := (Session.start StateKey.cellKeyLength).run steps
      (s.pool.balanceKey o a).1 = 0 :: (o.octets ++ a.octets ++ [0, 1]) ∧
      s.run (balanceSteps o a) = ⟨(s.pool.balanceKey o a).2, (s.pool.balanceKey o a).1 :: s.held⟩ := by
  have hsized (width : Nat) : ((Session.start width).run steps).Sized width := (Session.Sized.start width).run steps
  constructor
  · intro width m s
    obtain ⟨-, honce, hapart⟩ := List.nodup_append.1 ((Memory.Owned.start width).run steps).once
    refine ⟨Memory.session_run (.start width) steps, ?_, honce, (hsized width).pool.acquire.1, (hsized width).held,
      (hsized width).pool.few⟩
    exact fun n hheld hidle => hapart n hidle n hheld rfl
  · intro o a s
    exact ⟨(hsized _).pool.balanceKey o a, (hsized _).run_balanceSteps o a⟩

/-- A buffer is handed out with the contents that its last holder left. -/
example : ((Session.start 2).run [.acquire, .acquire, .rewrite 1 0 [7], .release 1]).pool.acquire.1 = [7, 0] := by
  decide

end BridgeLedger.KeyPool
