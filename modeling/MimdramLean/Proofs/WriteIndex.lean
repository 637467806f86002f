import MimdramLean.Proofs.QueueInvariants

/-!
# The index of the write queue

`isInWriteQueue` is meant to hold the burst addresses of the ordinary packets in the write queue,
one packet for each address. Row operations are not entered, but serving one erases the burst
address of its destination row. A run keeps the index right exactly as long as no row operation
is served while an ordinary write to the first burst of its destination is queued.
-/

namespace MimdramLean.Proofs
open Library DRAMCtrl

variable {p : Params}

/-- The burst addresses of the ordinary packets of a queue. -/
def ordinaryBursts (queue : List (DRAMPacket p)) : List Nat :=
  (queue.filter fun d => !d.isRowOp).map burst

/-- The index holds the burst addresses of the ordinary packets, and no two of them share one. -/
structure IndexInv (s : DRAMCtrl p) : Prop where
  index : s.isInWriteQueue = (ordinaryBursts s.writeQueue).toFinset
  distinct : (ordinaryBursts s.writeQueue).Nodup

/-- A row operation that the event serves does not share its burst with a queued write. -/
def SparesIndex (s : DRAMCtrl p) (e : Nat × Event p) : Prop :=
  ∀ i d, servedWrite { s with curTick := e.1 } e.2 = some i → s.writeQueue[i]? = some d →
    d.isRowOp = true → burst d ∉ ordinaryBursts s.writeQueue

lemma ordinaryBursts_append (xs ys : List (DRAMPacket p)) :
    ordinaryBursts (xs ++ ys) = ordinaryBursts xs ++ ordinaryBursts ys := by
  simp [ordinaryBursts]

lemma ordinaryBursts_rowOp {d : DRAMPacket p} (h : d.isRowOp = true) (ds : List (DRAMPacket p)) :
    ordinaryBursts (d :: ds) = ordinaryBursts ds := by
  simp [ordinaryBursts, h]

lemma ordinaryBursts_ordinary {d : DRAMPacket p} (h : d.isRowOp = false) (ds : List (DRAMPacket p)) :
    ordinaryBursts (d :: ds) = burst d :: ordinaryBursts ds := by
  simp [ordinaryBursts, h]

lemma ordinaryBursts_of_ordinary {ws : List (DRAMPacket p)} (h : ∀ d ∈ ws, d.isRowOp = false) :
    ordinaryBursts ws = ws.map burst := by
  rw [ordinaryBursts, List.filter_eq_self.mpr (fun d hd => by simp [h d hd])]

lemma sparesIndex_of_none {s : DRAMCtrl p} {e : Nat × Event p}
    (h : servedWrite { s with curTick := e.1 } e.2 = none) : SparesIndex s e := by
  intro i d hi
  rw [h] at hi
  cases hi

lemma sparesIndex_of_served {s : DRAMCtrl p} {e : Nat × Event p} {pre post : List (DRAMPacket p)}
    {d : DRAMPacket p} (hserved : servedWrite { s with curTick := e.1 } e.2 = some pre.length)
    (hwrite : s.writeQueue = pre ++ d :: post) :
    SparesIndex s e ↔ (d.isRowOp = true → burst d ∉ ordinaryBursts s.writeQueue) := by
  have hget : s.writeQueue[pre.length]? = some d := by simp [hwrite]
  constructor
  · intro h hd
    exact h pre.length d hserved hget hd
  · intro h i d' hi hd'
    rw [hserved] at hi
    obtain rfl := Option.some.inj hi
    rw [hget] at hd'
    obtain rfl := Option.some.inj hd'
    exact h

lemma indexInv_congr {s s' : DRAMCtrl p} (hw : s'.writeQueue = s.writeQueue)
    (hx : s'.isInWriteQueue = s.isInWriteQueue) (hi : IndexInv s) : IndexInv s' :=
  ⟨by rw [hx, hw, hi.index], by rw [hw]; exact hi.distinct⟩

lemma indexInv_addWrites {s s' : DRAMCtrl p} {ws : List (DRAMPacket p)} (hi : IndexInv s)
    (hord : ∀ d ∈ ws, d.isRowOp = false) (hnodup : (ws.map burst).Nodup)
    (hnew : ∀ d ∈ ws, burst d ∉ s.isInWriteQueue) (hw : s'.writeQueue = s.writeQueue ++ ws)
    (hx : s'.isInWriteQueue = s.isInWriteQueue ∪ (ws.map burst).toFinset) : IndexInv s' := by
  have hb : ordinaryBursts s'.writeQueue = ordinaryBursts s.writeQueue ++ ws.map burst := by
    rw [hw, ordinaryBursts_append, ordinaryBursts_of_ordinary hord]
  refine ⟨?_, ?_⟩
  · rw [hx, hb, hi.index, List.toFinset_append]
  · rw [hb]
    refine hi.distinct.append hnodup ?_
    intro a ha ha'
    obtain ⟨d, hd, rfl⟩ := List.mem_map.mp ha'
    apply hnew d hd
    rw [hi.index]
    exact List.mem_toFinset.mpr ha

/-- Serving an ordinary write takes its own address out of the index. -/
lemma indexInv_serveOrdinary {s s' : DRAMCtrl p} {pre post : List (DRAMPacket p)} {d : DRAMPacket p}
    (hi : IndexInv s) (hd : d.isRowOp = false) (hwrite : s.writeQueue = pre ++ d :: post)
    (hw : s'.writeQueue = pre ++ post) (hx : s'.isInWriteQueue = s.isInWriteQueue.erase (burst d)) :
    IndexInv s' := by
  have hb : (ordinaryBursts s.writeQueue).Perm (burst d :: ordinaryBursts s'.writeQueue) := by
    rw [hwrite, hw, ordinaryBursts_append, ordinaryBursts_append, ordinaryBursts_ordinary hd]
    exact List.perm_middle
  have hdis : (burst d :: ordinaryBursts s'.writeQueue).Nodup := hb.nodup_iff.mp hi.distinct
  obtain ⟨hnot, hrest⟩ := List.nodup_cons.mp hdis
  refine ⟨?_, hrest⟩
  rw [hx, hi.index, List.toFinset_eq_of_perm _ _ hb, List.toFinset_cons]
  exact Finset.erase_insert (by simpa using hnot)

/-- Serving a row operation leaves the queued writes as they are and erases an address. -/
lemma indexInv_serveRowOp {s s' : DRAMCtrl p} {pre post : List (DRAMPacket p)} {d : DRAMPacket p}
    (hi : IndexInv s) (hd : d.isRowOp = true) (hwrite : s.writeQueue = pre ++ d :: post)
    (hw : s'.writeQueue = pre ++ post) (hx : s'.isInWriteQueue = s.isInWriteQueue.erase (burst d)) :
    IndexInv s' ↔ burst d ∉ ordinaryBursts s.writeQueue := by
  have hb : ordinaryBursts s'.writeQueue = ordinaryBursts s.writeQueue := by
    rw [hwrite, hw, ordinaryBursts_append, ordinaryBursts_append, ordinaryBursts_rowOp hd]
  constructor
  · intro hi' hmem
    have hgone : burst d ∉ s'.isInWriteQueue := by
      rw [hx]
      exact Finset.notMem_erase _ _
    rw [hi'.index, hb] at hgone
    exact hgone (List.mem_toFinset.mpr hmem)
  · intro hnot
    refine ⟨?_, hb ▸ hi.distinct⟩
    rw [hx, hb, hi.index]
    exact Finset.erase_eq_of_notMem (by simpa using hnot)

/-- From a state with a right index, an event leaves the index right exactly if it spares it. -/
lemma step_indexInv_iff (s : DRAMCtrl p) (e : Nat × Event p) (s' : DRAMCtrl p) (hi : IndexInv s)
    (h : step s e = .ok s') : IndexInv s' ↔ SparesIndex s e := by
  obtain ⟨-, hh⟩ := step_eq_ok.mp h
  cases (handle_effect hh).1 with
  | frame he hq hev =>
    refine iff_of_true ?_ (sparesIndex_of_none (servedWrite_of_ne he))
    exact indexInv_congr (congrArg Queues.writeQueue hq) (congrArg Queues.isInWriteQueue hq) hi
  | addReads hserved rs hord hq hev =>
    refine iff_of_true ?_ (sparesIndex_of_none hserved)
    exact indexInv_congr (congrArg Queues.writeQueue hq) (congrArg Queues.isInWriteQueue hq) hi
  | addRowOp hserved d hd hlen hq hev =>
    refine iff_of_true ?_ (sparesIndex_of_none hserved)
    have hw : s'.writeQueue = s.writeQueue ++ [d] := congrArg Queues.writeQueue hq
    have hx : s'.isInWriteQueue = s.isInWriteQueue := congrArg Queues.isInWriteQueue hq
    have hb : ordinaryBursts s'.writeQueue = ordinaryBursts s.writeQueue := by
      rw [hw, ordinaryBursts_append, ordinaryBursts_rowOp hd]
      simp [ordinaryBursts]
    exact ⟨by rw [hx, hb, hi.index], hb ▸ hi.distinct⟩
  | addWrites hserved ws hord hnodup hnew hlen hq hev =>
    refine iff_of_true ?_ (sparesIndex_of_none hserved)
    exact indexInv_addWrites hi hord hnodup hnew (congrArg Queues.writeQueue hq)
      (congrArg Queues.isInWriteQueue hq)
  | stall hserved bus hbus hq hwhy =>
    refine iff_of_true ?_ (sparesIndex_of_none hserved)
    exact indexInv_congr (congrArg Queues.writeQueue hq) (congrArg Queues.isInWriteQueue hq) hi
  | turn hserved hread hwrite hq hev =>
    refine iff_of_true ?_ (sparesIndex_of_none hserved)
    exact indexInv_congr (congrArg Queues.writeQueue hq) (congrArg Queues.isInWriteQueue hq) hi
  | serveRead hserved pre d post hread bus hbus hq hev =>
    refine iff_of_true ?_ (sparesIndex_of_none hserved)
    exact indexInv_congr (congrArg Queues.writeQueue hq) (congrArg Queues.isInWriteQueue hq) hi
  | serveWrite pre d post hserved hwrite bus hbus hq hev =>
    have hw : s'.writeQueue = pre ++ post := congrArg Queues.writeQueue hq
    have hx : s'.isInWriteQueue = s.isInWriteQueue.erase (burst d) := congrArg Queues.isInWriteQueue hq
    have hwq : s.writeQueue = pre ++ d :: post := hwrite
    rw [sparesIndex_of_served hserved hwq]
    cases hd : d.isRowOp with
    | false => exact iff_of_true (indexInv_serveOrdinary hi hd hwq hw hx) nofun
    | true =>
      rw [indexInv_serveRowOp hi hd hwq hw hx]
      exact ⟨fun hnot _ => hnot, fun hspares => hspares rfl⟩

/-- The index of the write queue is right in every state of a run exactly if no step of the run
serves a row operation whose destination shares its burst address with a queued write. -/
theorem isInWriteQueue_right_iff (p : Params) (now : Nat) (es : List (Nat × Event p)) (s : DRAMCtrl p)
    (h : run p now es = .ok s) :
    Along step (startup p now) es IndexInv ↔ Steps step (startup p now) es SparesIndex :=
  along_iff_steps step IndexInv SparesIndex step_indexInv_iff
    ⟨by simp [startup, ordinaryBursts], by simp [startup, ordinaryBursts]⟩ h

theorem isInWriteQueue_right_iff_rowOpThenWrite :
    Along step (startup ddr3_1600_x64 0) rowOpThenWrite IndexInv ↔
      Steps step (startup ddr3_1600_x64 0) rowOpThenWrite SparesIndex := by
  obtain ⟨s, hrun, -⟩ := exists_of_okWith
    (x := run ddr3_1600_x64 0 rowOpThenWrite) (P := fun _ => true) (by decide +kernel)
  exact isInWriteQueue_right_iff ddr3_1600_x64 0 rowOpThenWrite s hrun

/-- The row operation is served first, and the queued write to its destination is lost from the
index. -/
theorem isInWriteQueue_wrong_after_rowOp :
    ∃ s, run ddr3_1600_x64 0 (rowOpThenWrite ++ [(1, .nextReq)]) = .ok s ∧
      s.isInWriteQueue = ∅ ∧ ordinaryBursts s.writeQueue = [0] := by
  obtain ⟨s, hrun, hs⟩ := exists_of_okWith
    (x := run ddr3_1600_x64 0 (rowOpThenWrite ++ [(1, .nextReq)]))
    (P := fun s => decide (s.isInWriteQueue = ∅ ∧ ordinaryBursts s.writeQueue = [0]))
    (by decide +kernel)
  exact ⟨s, hrun, by simpa using hs⟩

end MimdramLean.Proofs
