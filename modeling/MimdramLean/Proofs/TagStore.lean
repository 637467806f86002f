import MimdramLean.TagStore
import MimdramLean.Proofs.Coherence

/-!
# A row operation flushes exactly its rows

`access` looks up three addresses in each pass of its loop and drops the blocks that it finds. On
every content of the tag store this evicts each valid block of the three rows once, whichever of
the rows coincide, and touches no other block. The flush of the tag store is the one that `Cache`
does on the map of the valid blocks.
-/

namespace MimdramLean.Proofs
open Library TagStore

variable {p : TagParams}

/-! ### Lookup -/

lemma regenerateBlkAddr_eq (tag : Nat) (set : Fin p.numSets) :
    p.regenerateBlkAddr tag set = (tag * p.numSets + set.val) * p.blkSize := by
  have hlow : set.val <<< p.setShift < 2 ^ p.tagShift := by
    rw [Nat.shiftLeft_eq, TagParams.tagShift, Nat.add_comm, Nat.pow_add]
    exact Nat.mul_lt_mul_of_pos_right set.isLt (Nat.two_pow_pos _)
  rw [TagParams.regenerateBlkAddr, ← Nat.shiftLeft_add_eq_or_of_lt hlow, p.blkSize_eq]
  simp only [Nat.shiftLeft_eq, TagParams.tagShift, TagParams.numSets, Nat.pow_add]
  ring

/-- Tag and set of an address are those of its block. -/
lemma regenerateBlkAddr_eq_iff {tag addr : Nat} {set : Fin p.numSets} :
    p.regenerateBlkAddr tag set = Cache.blockAlign p.toCacheParams addr ↔
      tag = p.extractTag addr ∧ set = p.extractSet addr := by
  have hblk : 0 < p.blkSize := p.blkSize_eq ▸ Nat.two_pow_pos _
  have hset : (p.extractSet addr).val = addr / p.blkSize % p.numSets := by
    simp only [TagParams.extractSet, Nat.shiftRight_eq_div_pow, p.blkSize_eq]
  have htag : p.extractTag addr = addr / p.blkSize / p.numSets := by
    simp only [TagParams.extractTag, TagParams.tagShift, Nat.shiftRight_eq_div_pow, Nat.pow_add,
      Nat.div_div_eq_div_mul, p.blkSize_eq, TagParams.numSets]
  rw [regenerateBlkAddr_eq, Cache.blockAlign, Nat.mul_left_inj hblk.ne', Fin.ext_iff, hset, htag]
  have hlt : set.val < p.numSets := set.isLt
  constructor
  · intro h
    rw [← h, Nat.add_comm, Nat.add_mul_div_right _ _ (by omega), Nat.div_eq_of_lt hlt,
      Nat.add_mul_mod_self_right, Nat.mod_eq_of_lt hlt]
    exact ⟨(Nat.zero_add _).symm, rfl⟩
  · rintro ⟨htag', hset'⟩
    rw [htag', hset']
    exact Nat.div_add_mod' _ _

/-- The block of a set and way. -/
def blkOf (t : TagStore p) (b : Fin p.numSets × Fin p.assoc) : TagBlk p.blkSize := t.blks b.1 b.2

/-- A valid block for the address and security. -/
def Holds (t : TagStore p) (secure : Bool) (a : Nat) (b : Fin p.numSets × Fin p.assoc) : Prop :=
  (blkOf t b).isValid = true ∧ (blkOf t b).isSecure = secure ∧ t.blkAddr b.1 b.2 = a

lemma Holds.unique {t : TagStore p} {secure : Bool} {addr : Nat} {b b' : Fin p.numSets × Fin p.assoc}
    (h : Holds t secure (Cache.blockAlign p.toCacheParams addr) b)
    (h' : Holds t secure (Cache.blockAlign p.toCacheParams addr) b') : b = b' := by
  obtain ⟨set, way⟩ := b
  obtain ⟨set', way'⟩ := b'
  obtain ⟨hvalid, hsecure, haddr⟩ := h
  obtain ⟨hvalid', hsecure', haddr'⟩ := h'
  obtain ⟨htag, rfl⟩ := regenerateBlkAddr_eq_iff.mp haddr
  obtain ⟨htag', rfl⟩ := regenerateBlkAddr_eq_iff.mp haddr'
  rw [t.unique _ way way' hvalid hvalid' (htag.trans htag'.symm) (hsecure.trans hsecure'.symm)]

/-- The lookup finds the block for the address, if there is one. -/
lemma findBlock_eq_some {t : TagStore p} {addr : Nat} {secure : Bool} {b : Fin p.numSets × Fin p.assoc} :
    t.findBlock addr secure = some b ↔ Holds t secure (Cache.blockAlign p.toCacheParams addr) b := by
  have hfound : ∀ b, t.findBlock addr secure = some b →
      Holds t secure (Cache.blockAlign p.toCacheParams addr) b := by
    intro b h
    obtain ⟨way, hway, rfl⟩ := Option.map_eq_some_iff.mp h
    have hmatch := List.find?_some hway
    simp only [Bool.and_eq_true, beq_iff_eq] at hmatch
    exact ⟨hmatch.1.2, hmatch.2, regenerateBlkAddr_eq_iff.mpr ⟨hmatch.1.1, rfl⟩⟩
  constructor
  · exact hfound b
  · intro hb
    cases hlook : t.findBlock addr secure with
    | some b' => rw [(hfound b' hlook).unique hb]
    | none =>
      obtain ⟨hvalid, hsecure, haddr⟩ := hb
      obtain ⟨htag, hset⟩ := regenerateBlkAddr_eq_iff.mp haddr
      have hway := List.find?_eq_none.mp (Option.map_eq_none_iff.mp hlook) b.2 (t.complete _ b.2)
      rw [← hset] at hway
      simp only [Bool.and_eq_true, beq_iff_eq] at hway
      exact absurd ⟨⟨htag, hvalid⟩, hsecure⟩ hway

/-! ### One address -/

/-- The packet for a block that is dropped: a Writeback with the data of a dirty block, a
CleanEvict otherwise. -/
def evictionOf (p : TagParams) (set : Fin p.numSets) (blk : TagBlk p.blkSize) : Eviction p.blkSize :=
  if blk.isDirty then
    ⟨.ofBlock .writeback (p.regenerateBlkAddr blk.tag set) p.blkSize blk.isSecure (!blk.isWritable),
      blk.taskId, some blk.data⟩
  else ⟨.ofBlock .cleanEvict (p.regenerateBlkAddr blk.tag set) p.blkSize blk.isSecure false, blk.taskId, none⟩

def eviction (t : TagStore p) (b : Fin p.numSets × Fin p.assoc) : Eviction p.blkSize := evictionOf p b.1 (blkOf t b)

/-- `t'` is `t` after the blocks of the list have been dropped. -/
structure Dropped (t t' : TagStore p) (blocks : List (Fin p.numSets × Fin p.assoc)) : Prop where
  gone : ∀ b ∈ blocks, (blkOf t' b).isValid = false
  kept : ∀ b, b ∉ blocks → blkOf t' b = blkOf t b

lemma invalidated_dropped (t : TagStore p) (now : Nat) (b : Fin p.numSets × Fin p.assoc) (blk : TagBlk p.blkSize) :
    Dropped t (t.invalidated now b.1 b.2 blk) [b] where
  gone := by
    intro b' hb'
    rw [List.mem_singleton.mp hb']
    simp [blkOf, invalidated, TagBlk.invalidate, TagBlk.isValid]
  kept := by
    intro b' hb'
    have hne : ¬(b'.1 = b.1 ∧ b'.2 = b.2) := fun h => hb' (List.mem_singleton.mpr (Prod.ext h.1 h.2))
    simp only [blkOf, invalidated, if_neg hne]

/-- The assertions of `writebackBlk` and `cleanEvictBlk` hold of a valid block. -/
lemma evictBlk_ok (hrw : p.isReadOnly = false) (now : Nat) (set : Fin p.numSets) {blk : TagBlk p.blkSize}
    (hvalid : blk.isValid = true) :
    ∃ blk', evictBlk p now set blk = .ok (evictionOf p set blk, blk') ∧
      blk'.isValid = true ∧ blk'.srcMasterId = blk.srcMasterId := by
  cases hdirty : blk.isDirty with
  | true =>
    refine ⟨{ blk with
      taskId := TagBlk.unknownTask
      tickInserted := now
      status := { blk.status with writable := blk.status.writable && !blk.isWritable, dirty := false } },
      ?_, hvalid, rfl⟩
    simp [evictBlk, writebackBlk, evictionOf, ensure, hrw, hvalid, hdirty]
  | false =>
    refine ⟨{ blk with taskId := TagBlk.unknownTask, tickInserted := now }, ?_, hvalid, rfl⟩
    simp [evictBlk, cleanEvictBlk, evictionOf, ensure, hvalid, hdirty]

/-- A found block is dropped and its packet added to the list. -/
lemma writebackAddr_found (hrw : p.isReadOnly = false) {t : TagStore p} (now : Nat) {addr : Nat}
    {secure : Bool} {b : Fin p.numSets × Fin p.assoc} (wbs : List (Eviction p.blkSize))
    (h : t.findBlock addr secure = some b) :
    ∃ t', writebackAddr now secure (t, wbs) addr = .ok (t', wbs ++ [eviction t b]) ∧ Dropped t t' [b] := by
  obtain ⟨hvalid, -, -⟩ := findBlock_eq_some.mp h
  obtain ⟨blk, hevict, hblk, hmaster⟩ := evictBlk_ok hrw now b.1 hvalid
  have hin : blk.srcMasterId < p.maxMasters := hmaster ▸ t.masters b.1 b.2 hvalid
  refine ⟨t.invalidated now b.1 b.2 blk, ?_, invalidated_dropped t now b blk⟩
  simp only [blkOf] at hvalid hevict
  simp [writebackAddr, h, hvalid, hevict, TagStore.invalidate, ensure, hblk, hin, eviction, blkOf]

lemma writebackAddr_none {t : TagStore p} (now : Nat) {addr : Nat} {secure : Bool} (wbs : List (Eviction p.blkSize))
    (h : t.findBlock addr secure = none) : writebackAddr now secure (t, wbs) addr = .ok (t, wbs) := by
  simp only [writebackAddr, h]

/-! ### All addresses -/

/-- The block is for one of the addresses. -/
def ForOneOf (t : TagStore p) (secure : Bool) (addrs : List Nat) (b : Fin p.numSets × Fin p.assoc) : Prop :=
  ∃ addr ∈ addrs, Holds t secure (Cache.blockAlign p.toCacheParams addr) b

lemma Dropped.holds {t t' : TagStore p} {blocks : List (Fin p.numSets × Fin p.assoc)}
    (h : Dropped t t' blocks) {secure : Bool} {a : Nat} {b : Fin p.numSets × Fin p.assoc} :
    Holds t' secure a b ↔ b ∉ blocks ∧ Holds t secure a b := by
  by_cases hb : b ∈ blocks
  · simp [Holds, h.gone b hb, hb]
  · have hsame : t'.blks b.1 b.2 = t.blks b.1 b.2 := h.kept b hb
    simp [Holds, blkOf, blkAddr, hsame, hb]

lemma forOneOf_cons {t : TagStore p} {secure : Bool} {addr : Nat} {addrs : List Nat}
    {b : Fin p.numSets × Fin p.assoc} :
    ForOneOf t secure (addr :: addrs) b ↔
      Holds t secure (Cache.blockAlign p.toCacheParams addr) b ∨ ForOneOf t secure addrs b := by
  simp only [ForOneOf, List.mem_cons, or_and_right, exists_or, exists_eq_left]

/-- What is dropped later is still valid, so it has not been dropped before. -/
lemma Dropped.forOneOf {t t' : TagStore p} {blocks : List (Fin p.numSets × Fin p.assoc)}
    (h : Dropped t t' blocks) {secure : Bool} {addrs : List Nat} {b : Fin p.numSets × Fin p.assoc} :
    ForOneOf t' secure addrs b ↔ b ∉ blocks ∧ ForOneOf t secure addrs b := by
  simp only [ForOneOf, h.holds]
  constructor
  · rintro ⟨addr, haddr, hb, hholds⟩
    exact ⟨hb, addr, haddr, hholds⟩
  · rintro ⟨hb, addr, haddr, hholds⟩
    exact ⟨addr, haddr, hb, hholds⟩

lemma Dropped.trans {t t' t'' : TagStore p} {blocks more : List (Fin p.numSets × Fin p.assoc)}
    (h : Dropped t t' blocks) (h' : Dropped t' t'' more) : Dropped t t'' (blocks ++ more) where
  gone := by
    intro b hb
    by_cases hmore : b ∈ more
    · exact h'.gone b hmore
    · rw [h'.kept b hmore]
      exact h.gone b ((List.mem_append.mp hb).resolve_right hmore)
  kept := by
    intro b hb
    simp only [List.mem_append, not_or] at hb
    rw [h'.kept b hb.2, h.kept b hb.1]

/-- The packet of a block depends on nothing but the block. -/
lemma Dropped.eviction {t t' : TagStore p} {blocks : List (Fin p.numSets × Fin p.assoc)}
    (h : Dropped t t' blocks) {b : Fin p.numSets × Fin p.assoc} (hb : b ∉ blocks) :
    eviction t' b = Proofs.eviction t b := by
  rw [Proofs.eviction, Proofs.eviction, h.kept b hb]

/-- Each valid block for one of the addresses is dropped once, also when it is looked up again. -/
theorem flush_exact (hrw : p.isReadOnly = false) (t : TagStore p) (now : Nat) (secure : Bool)
    (addrs : List Nat) (wbs : List (Eviction p.blkSize)) :
    ∃ blocks t', addrs.foldlM (writebackAddr now secure) (t, wbs) =
        .ok (t', wbs ++ blocks.map (eviction t)) ∧
      blocks.Nodup ∧ (∀ b, b ∈ blocks ↔ ForOneOf t secure addrs b) ∧ Dropped t t' blocks := by
  induction addrs generalizing t wbs with
  | nil => exact ⟨[], t, by simp [pure, Except.pure], List.nodup_nil, by simp [ForOneOf], by simp, fun _ _ => rfl⟩
  | cons addr addrs ih =>
    rw [List.foldlM_cons]
    cases hlook : t.findBlock addr secure with
    | none =>
      obtain ⟨blocks, t', hrun, hnodup, hmem, hdrop⟩ := ih t wbs
      have hnot : ∀ b, ¬Holds t secure (Cache.blockAlign p.toCacheParams addr) b := by
        intro b hb
        rw [findBlock_eq_some.mpr hb] at hlook
        cases hlook
      rw [writebackAddr_none now wbs hlook]
      refine ⟨blocks, t', hrun, hnodup, fun b => ?_, hdrop⟩
      rw [hmem b, forOneOf_cons, or_iff_right (hnot b)]
    | some first =>
      have hfirst := findBlock_eq_some.mp hlook
      obtain ⟨mid, hstep, hdrop⟩ := writebackAddr_found hrw now wbs hlook
      obtain ⟨blocks, t', hrun, hnodup, hmem, hdrop'⟩ := ih mid (wbs ++ [eviction t first])
      have hlater : ∀ b, b ∈ blocks ↔ b ≠ first ∧ ForOneOf t secure addrs b := by
        intro b
        rw [hmem b, hdrop.forOneOf, List.mem_singleton]
      have hsame : blocks.map (eviction mid) = blocks.map (eviction t) :=
        List.map_congr_left fun b hb => hdrop.eviction (by simpa using ((hlater b).mp hb).1)
      refine ⟨first :: blocks, t', ?_, ?_, ?_, hdrop.trans hdrop'⟩
      · rw [hstep, ok_bind, hrun, hsame, List.append_assoc]
        rfl
      · exact List.nodup_cons.mpr ⟨fun h => ((hlater first).mp h).1 rfl, hnodup⟩
      · intro b
        rw [List.mem_cons, hlater b, forOneOf_cons]
        by_cases hb : b = first
        · subst hb
          simp [hfirst]
        · have hother : ¬Holds t secure (Cache.blockAlign p.toCacheParams addr) b := fun h => hb (h.unique hfirst)
          simp [hb, hother]

/-! ### A row operation -/

/-- The address is in one of the three rows. -/
def InRows (addrs : RowOpPayload) (a : Nat) : Prop :=
  ∃ base ∈ [addrs.dest, addrs.src1, addrs.src2], base ≤ a ∧ a < base + rowSize

lemma blkAddr_dvd (t : TagStore p) (b : Fin p.numSets × Fin p.assoc) : p.blkSize ∣ t.blkAddr b.1 b.2 := by
  rw [blkAddr, regenerateBlkAddr_eq]
  exact dvd_mul_left _ _

/-- The loop comes to the blocks of the rows and to no others. -/
lemma inRows_iff {pkt : CachePacket} {addrs : RowOpPayload} (hrow : pkt.rowOp = some addrs)
    (hline : p.blkSize ∣ rowSize)
    (haligned : p.blkSize ∣ addrs.dest ∧ p.blkSize ∣ addrs.src1 ∧ p.blkSize ∣ addrs.src2)
    {a : Nat} (ha : p.blkSize ∣ a) :
    InRows addrs a ↔ ∃ addr ∈ Cache.flushAddrs p.toCacheParams pkt, a = Cache.blockAlign p.toCacheParams addr := by
  have hpos : 0 < p.blkSize := Nat.pos_of_dvd_of_pos hline (by decide)
  constructor
  · rintro ⟨base, hbase, hlow, hhigh⟩
    have hin : InRow p.toCacheParams base a := ⟨by omega, hhigh⟩
    have hblk : IsBlockOf p.toCacheParams addrs a := by
      refine ⟨ha, ?_⟩
      simp only [List.mem_cons, List.not_mem_nil, or_false] at hbase
      rcases hbase with rfl | rfl | rfl
      · exact .inl hin
      · exact .inr (.inl hin)
      · exact .inr (.inr hin)
    exact ⟨a, mem_flushAddrs hrow hline haligned hblk, (blockAlign_self ha).symm⟩
  · rintro ⟨addr, hmem, rfl⟩
    rw [Cache.flushAddrs, hrow] at hmem
    obtain ⟨i, hi, haddr⟩ := List.mem_flatMap.mp hmem
    obtain ⟨k, hk, hlt⟩ := (mem_forLoop hpos).mp hi
    have hidvd : p.blkSize ∣ i := ⟨k, by omega⟩
    have hin : ∀ base, p.blkSize ∣ base → addr = base + i → Cache.blockAlign p.toCacheParams addr = base + i := by
      rintro base hbase rfl
      exact blockAlign_self (Nat.dvd_add hbase hidvd)
    simp only [List.mem_cons, List.not_mem_nil, or_false] at haddr
    rcases haddr with h | h | h
    · refine ⟨addrs.dest, by simp, ?_⟩
      rw [hin _ haligned.1 h]
      omega
    · refine ⟨addrs.src1, by simp, ?_⟩
      rw [hin _ haligned.2.1 h]
      omega
    · refine ⟨addrs.src2, by simp, ?_⟩
      rw [hin _ haligned.2.2 h]
      omega

lemma rowOp_isWrite {pkt : CachePacket} {addrs : RowOpPayload} (hrow : pkt.rowOp = some addrs) :
    pkt.isWrite = true := by
  obtain ⟨-, -, hcmd | hcmd⟩ := pkt.ofRowOp (by simp [hrow])
  · rw [CachePacket.isWrite, hcmd]
    rfl
  · rw [CachePacket.isWrite, hcmd]
    rfl

/-- A row operation evicts each valid block of its security in its three rows once and touches no
other block. A read-only cache asserts that it sees no write. Addresses are natural numbers: the rows are
those of the source as long as each ends inside the 64-bit address space, at most at `2 ^ 64`. -/
theorem rowOp_flush_exact (t : TagStore p) (now : Nat) (pkt : CachePacket) (addrs : RowOpPayload)
    (hrow : pkt.rowOp = some addrs) (hline : p.blkSize ∣ rowSize)
    (haligned : p.blkSize ∣ addrs.dest ∧ p.blkSize ∣ addrs.src1 ∧ p.blkSize ∣ addrs.src2)
    (writebacks : List (Eviction p.blkSize)) :
    (p.isReadOnly = true → t.accessUncacheable now pkt writebacks = .error .writeInReadOnlyCache) ∧
    (p.isReadOnly = false → ∃ (blocks : List (Fin p.numSets × Fin p.assoc)) (t' : TagStore p),
      t.accessUncacheable now pkt writebacks = .ok (false, t', writebacks ++ blocks.map (eviction t)) ∧
      blocks.Nodup ∧
      (∀ b, b ∈ blocks ↔ (blkOf t b).isValid = true ∧ (blkOf t b).isSecure = pkt.secure ∧
        InRows addrs (t.blkAddr b.1 b.2)) ∧
      (∀ b, (blkOf t' b).isValid = true → (blkOf t' b).isSecure = pkt.secure →
        ¬InRows addrs (t'.blkAddr b.1 b.2)) ∧
      ∀ b, b ∉ blocks → blkOf t' b = blkOf t b) := by
  constructor
  · intro hro
    simp [accessUncacheable, ensure, hro, rowOp_isWrite hrow, Bind.bind, Except.bind]
  · intro hrw
    obtain ⟨blocks, t', hrun, hnodup, hmem, hdrop⟩ := flush_exact hrw t now pkt.secure
      (Cache.flushAddrs p.toCacheParams pkt) writebacks
    have hblocks : ∀ b, b ∈ blocks ↔ (blkOf t b).isValid = true ∧ (blkOf t b).isSecure = pkt.secure ∧
        InRows addrs (t.blkAddr b.1 b.2) := by
      intro b
      rw [hmem b, inRows_iff hrow hline haligned (blkAddr_dvd t b)]
      constructor
      · rintro ⟨addr, haddr, hvalid, hsecure, ha⟩
        exact ⟨hvalid, hsecure, addr, haddr, ha⟩
      · rintro ⟨hvalid, hsecure, addr, haddr, ha⟩
        exact ⟨addr, haddr, hvalid, hsecure, ha⟩
    refine ⟨blocks, t', ?_, hnodup, hblocks, ?_, hdrop.kept⟩
    · simp [accessUncacheable, ensure, hrw, hrun]
    · intro b hvalid hsecure hin
      -- a block that is still valid was kept, and all blocks of the rows were dropped
      obtain ⟨hb, hvalid', hsecure', haddr⟩ := hdrop.holds.mp ⟨hvalid, hsecure, rfl⟩
      exact hb ((hblocks b).mpr ⟨hvalid', hsecure', haddr ▸ hin⟩)

/-- Two sets of two blocks. -/
def smallTags : TagParams where
  blkSize := 64
  mshrs := 4
  writeBuffers := 8
  tgtsPerMSHR := 20
  isReadOnly := false
  setShift := 6
  setBits := 1
  assoc := 2
  maxMasters := 1
  replacement := .lru
  blkSize_eq := rfl

/-- One dirty block, at address 8192. -/
def oneDirtyBlock : TagStore smallTags where
  blks := fun set way =>
    if set.val = 0 ∧ way.val = 0 then ⟨0, 64, .replicate 64 1, { valid := true, dirty := true }, true, 0, 0, []⟩
    else ⟨0, 0, .replicate 64 0, {}, false, TagBlk.invldMasterId, 0, []⟩
  order := fun _ => List.finRange _
  complete := fun _ way => List.mem_finRange way
  unique := by decide
  masters := by decide

/-- A row operation whose three rows coincide. -/
def sameRows : CachePacket where
  cmd := .writeReq
  addr := 0
  size := RowOpPayload.sizeOf
  secure := false
  uncacheable := true
  rowOp := some ⟨.rowAnd, 8192, 8192, 8192⟩
  shared := false
  memInhibit := false
  ofRowOp := fun _ => ⟨rfl, rfl, .inl rfl⟩

theorem sameRows_flush : ∃ (blocks : List (Fin smallTags.numSets × Fin smallTags.assoc)) (t' : TagStore smallTags),
    oneDirtyBlock.accessUncacheable 7 sameRows [] = .ok (false, t', blocks.map (eviction oneDirtyBlock)) ∧
      blocks.Nodup ∧ ((0 : Fin 2), (0 : Fin 2)) ∈ blocks := by
  obtain ⟨blocks, t', haccess, hnodup, hmem, -, -⟩ :=
    (rowOp_flush_exact oneDirtyBlock 7 sameRows ⟨.rowAnd, 8192, 8192, 8192⟩ rfl (by decide) (by decide) []).2 rfl
  refine ⟨blocks, t', haccess, hnodup, (hmem _).mpr ⟨by decide, by decide, 8192, by simp, ?_⟩⟩
  decide

/-! ### The valid blocks as a map -/

/-- The map of the valid blocks that `Cache` works on. -/
def toTags (t : TagStore p) : Tags := fun a secure =>
  if Cache.blockAlign p.toCacheParams a = a then
    (t.findBlock a secure).map fun b =>
      ⟨(blkOf t b).status.readable, (blkOf t b).isWritable, (blkOf t b).isDirty⟩
  else none

lemma blockAlign_idem (addr : Nat) :
    Cache.blockAlign p.toCacheParams (Cache.blockAlign p.toCacheParams addr) =
      Cache.blockAlign p.toCacheParams addr :=
  blockAlign_self (Dvd.intro_left _ rfl)

lemma findBlock_blockAlign (t : TagStore p) (addr : Nat) (secure : Bool) :
    t.findBlock (Cache.blockAlign p.toCacheParams addr) secure = t.findBlock addr secure := by
  ext b
  rw [findBlock_eq_some, findBlock_eq_some, blockAlign_idem]

lemma toTags_blockAlign (t : TagStore p) (addr : Nat) (secure : Bool) :
    toTags t (Cache.blockAlign p.toCacheParams addr) secure = (t.findBlock addr secure).map fun b =>
      ⟨(blkOf t b).status.readable, (blkOf t b).isWritable, (blkOf t b).isDirty⟩ := by
  rw [toTags, if_pos (blockAlign_idem addr), findBlock_blockAlign]

/-- To drop a block is to take it out of the map. -/
lemma toTags_dropped {t t' : TagStore p} {addr : Nat} {secure : Bool} {b : Fin p.numSets × Fin p.assoc}
    (h : t.findBlock addr secure = some b) (hdrop : Dropped t t' [b]) :
    toTags t' = (toTags t).set (Cache.blockAlign p.toCacheParams addr) secure none := by
  have hb := findBlock_eq_some.mp h
  funext a s
  unfold Tags.set
  by_cases halign : Cache.blockAlign p.toCacheParams a = a
  · rw [← halign, toTags_blockAlign, toTags_blockAlign]
    by_cases hsame : Cache.blockAlign p.toCacheParams a = Cache.blockAlign p.toCacheParams addr ∧ s = secure
    · rw [if_pos hsame]
      have hnone : t'.findBlock a s = none := by
        cases hlook : t'.findBlock a s with
        | none => rfl
        | some b' =>
          obtain ⟨hne, hb'⟩ := hdrop.holds.mp (findBlock_eq_some.mp hlook)
          rw [hsame.1, hsame.2] at hb'
          exact absurd (List.mem_singleton.mpr (hb'.unique hb)) hne
      rw [hnone]
      rfl
    · rw [if_neg hsame]
      -- another block: it is found as before, and it is the same
      have hlook : t'.findBlock a s = t.findBlock a s := by
        ext b'
        rw [findBlock_eq_some, findBlock_eq_some, hdrop.holds]
        refine and_iff_right_of_imp fun hb' hmem => hsame ?_
        rw [List.mem_singleton.mp hmem] at hb'
        exact ⟨hb'.2.2.symm.trans hb.2.2, hb'.2.1.symm.trans hb.2.1⟩
      rw [hlook]
      cases hfound : t.findBlock a s with
      | none => rfl
      | some b' =>
        have hne : b' ∉ [b] := by
          rw [hfound] at hlook
          exact (hdrop.holds.mp (findBlock_eq_some.mp hlook)).1
        simp only [Option.map_some, hdrop.kept b' hne]
  · simp [toTags, halign]

lemma eviction_pkt {t : TagStore p} {addr : Nat} {secure : Bool} {b : Fin p.numSets × Fin p.assoc}
    (h : t.findBlock addr secure = some b) :
    (eviction t b).pkt = Cache.evictBlk p.toCacheParams (Cache.blockAlign p.toCacheParams addr) secure
      ⟨(blkOf t b).status.readable, (blkOf t b).isWritable, (blkOf t b).isDirty⟩ := by
  obtain ⟨-, hsecure, haddr⟩ := findBlock_eq_some.mp h
  have haddr' : p.regenerateBlkAddr (blkOf t b).tag b.1 = Cache.blockAlign p.toCacheParams addr := haddr
  rw [eviction, evictionOf, Cache.evictBlk, haddr', hsecure]
  split <;> rfl

/-- The tag store refines the map: the flush of `Cache` drops the same blocks and sends the same
packets. -/
theorem flush_refines (hrw : p.isReadOnly = false) (t : TagStore p) (now : Nat) (secure : Bool)
    (addrs : List Nat) (wbs : List (Eviction p.blkSize)) :
    ∃ evs t', addrs.foldlM (writebackAddr now secure) (t, wbs) = .ok (t', wbs ++ evs) ∧
      (evs.map Eviction.pkt, toTags t') = Cache.writebackAddrs p.toCacheParams secure (toTags t) addrs := by
  induction addrs generalizing t wbs with
  | nil => exact ⟨[], t, by simp [pure, Except.pure], rfl⟩
  | cons addr addrs ih =>
    rw [List.foldlM_cons, Cache.writebackAddrs, Cache.writebackAddr, toTags_blockAlign]
    cases hlook : t.findBlock addr secure with
    | none =>
      obtain ⟨evs, t', hrun, hpair⟩ := ih t wbs
      rw [writebackAddr_none now wbs hlook]
      refine ⟨evs, t', hrun, ?_⟩
      simp only [Option.map_none, ← hpair, List.nil_append]
    | some b =>
      obtain ⟨mid, hstep, hdrop⟩ := writebackAddr_found hrw now wbs hlook
      obtain ⟨evs, t', hrun, hpair⟩ := ih mid (wbs ++ [eviction t b])
      refine ⟨eviction t b :: evs, t', ?_, ?_⟩
      · rw [hstep, ok_bind, hrun, List.append_assoc]
        rfl
      · simp only [Option.map_some, ← toTags_dropped hlook hdrop, ← hpair, ← eviction_pkt hlook]
        rfl

/-- `Cache::access` of an uncacheable request on the tag store and on the map of its valid blocks. -/
theorem accessUncacheable_refines (t : TagStore p) (now : Nat) (env : CacheEnv) {pkt : CachePacket}
    (huncacheable : pkt.uncacheable = true) {s : Cache p.toCacheParams} (htags : s.tags = toTags t)
    {satisfied : Bool} {t' : TagStore p} {evs : List (Eviction p.blkSize)}
    (h : t.accessUncacheable now pkt [] = .ok (satisfied, t', evs)) (hrw : p.isReadOnly = false) :
    s.access env pkt = .ok ⟨satisfied, none, evs.map Eviction.pkt, { s with tags := toTags t' }⟩ := by
  obtain ⟨evs', t'', hrun, hpair⟩ := flush_refines hrw t now pkt.secure
    (Cache.flushAddrs p.toCacheParams pkt) []
  simp only [accessUncacheable, ensure, hrw, Bool.false_eq_true, false_and, not_false_eq_true, if_true,
    ok_bind, hrun, Except.ok.injEq, Prod.mk.injEq, List.nil_append] at h
  obtain ⟨rfl, rfl, rfl⟩ := h
  simp [Cache.access, ensure, hrw, huncacheable, htags, ← hpair, pure, Except.pure]

end MimdramLean.Proofs
