import MimdramLean.PageTable
import MimdramLean.Proofs.Translation

/-!
# The rows that a row operation names

One address of each operand is translated, and a row is larger than a page. `access` then walks through
physical memory from the translated addresses on: it acts on the rows that the program named exactly if
each of them lies in physical pages in a row.
-/

namespace MimdramLean.Proofs
open Library WholeTranslationState

/-! ### The bytes that `access` touches -/

section Touched

variable {addrs : RowOpPayload} {m m' : Memory}

/-- Two memories agree on the bytes that `access` touches. -/
def AgreeOnTouched (addrs : RowOpPayload) (m m' : Memory) : Prop :=
  ∀ o, addrs.op.touches o = true → ∀ i < rowSize, m (addrs.touched o i) = m' (addrs.touched o i)

/-- The word of an operand at an offset of the loop. -/
lemma AgreeOnTouched.load64_eq (h : AgreeOnTouched addrs m m') {o : Operand} (ho : addrs.op.touches o = true)
    {i : Nat} (hi : i < rowSize / 8) : load64 m (addrs.get o + 8 * i) = load64 m' (addrs.get o + 8 * i) := by
  apply load64_congr
  intro k hk
  rw [Nat.add_assoc]
  apply h o ho
  simp only [rowSize] at hi ⊢
  omega

/-- What `access` leaves in the bytes that it touches depends on these bytes only. -/
theorem accessRowOp_agree (h : AgreeOnTouched addrs m m') :
    AgreeOnTouched addrs (accessRowOp m addrs) (accessRowOp m' addrs) := by
  have hloop : ∀ word : Memory → Nat → BitVec 64,
      (∀ i < rowSize / 8, ∀ m m' : Memory, AgreeOnTouched addrs m m' → word m (8 * i) = word m' (8 * i)) →
      AgreeOnTouched addrs (forRow addrs.dest word m) (forRow addrs.dest word m') := by
    intro word hword o ho i hi
    apply storeWords_agree (A := fun x => ∃ o i, addrs.op.touches o = true ∧ i < rowSize ∧ x = addrs.touched o i)
    · intro j hj m m' hag
      exact hword j hj m m' fun o ho i hi => hag _ ⟨o, i, ho, hi, rfl⟩
    · rintro x ⟨o, i, ho, hi, rfl⟩
      exact h o ho i hi
    · exact ⟨o, i, ho, hi, rfl⟩
  obtain ⟨op, dest, src1, src2⟩ := addrs
  cases op with
  | rowAnd =>
    refine hloop _ fun i hi m m' hag => ?_
    exact congrArg₂ _ (hag.load64_eq (o := .src1) rfl hi) (hag.load64_eq (o := .src2) rfl hi)
  | rowOr =>
    refine hloop _ fun i hi m m' hag => ?_
    exact congrArg₂ _ (hag.load64_eq (o := .src1) rfl hi) (hag.load64_eq (o := .src2) rfl hi)
  | rowXor =>
    refine hloop _ fun i hi m m' hag => ?_
    exact congrArg₂ _ (hag.load64_eq (o := .src1) rfl hi) (hag.load64_eq (o := .src2) rfl hi)
  | rowNot =>
    refine hloop _ fun i hi m m' hag => ?_
    exact congrArg _ (hag.load64_eq (o := .src1) rfl hi)
  | rowAp => exact h
  | rowAap => exact h

/-- Every other byte is left alone. -/
theorem accessRowOp_outside {x : Nat} (hx : ∀ i < rowSize, x ≠ addrs.touched .dest i) :
    accessRowOp m addrs x = m x := by
  have hout : x < addrs.dest ∨ addrs.dest + 8 * (rowSize / 8) ≤ x := by
    by_contra hin
    simp only [rowSize, RowOpPayload.touched] at hx hin
    exact hx (x - addrs.dest) (by omega) (by simp only [RowOpPayload.get]; omega)
  have hloop : ∀ word, forRow addrs.dest word m x = m x := fun word => storeWords_outside hout
  obtain ⟨op, dest, src1, src2⟩ := addrs
  cases op with
  | rowAp => rfl
  | rowAap => rfl
  | _ => exact hloop _

end Touched

lemma uses_of_touches {op : RowOp} {o : Operand} (h : op.touches o = true) : op.uses o = true := by
  cases op <;> cases o <;> first | rfl | exact absurd h (by decide)

/-! ### One row -/

section Row

variable {pt : PageTable} {v : Nat}

/-- A row is two pages. -/
lemma translate_add (pt : PageTable) (hv : rowSize ∣ v) {i : Nat} (hi : i < rowSize) :
    pt.translate (v + i) =
      if i < pageBytes then (pt (v / pageBytes)).map fun ppn => ppn * pageBytes + i
      else (pt (v / pageBytes + 1)).map fun ppn => ppn * pageBytes + (i - pageBytes) := by
  obtain ⟨r, rfl⟩ := hv
  simp only [PageTable.translate, rowSize, show pageBytes = 4096 from rfl] at hi ⊢
  split
  · rw [show (8192 * r + i) / 4096 = 8192 * r / 4096 by omega, show (8192 * r + i) % 4096 = i by omega]
  · rw [show (8192 * r + i) / 4096 = 8192 * r / 4096 + 1 by omega,
      show (8192 * r + i) % 4096 = i - 4096 by omega]

/-- The bytes from the image of `v` on are the image of the row at `v` exactly if its two pages are mapped to
physical pages in a row. -/
lemma row_image_iff (hv : rowSize ∣ v) (hmapped : ∀ i < rowSize, (pt.translate (v + i)).isSome = true) {paddr : Nat}
    (hpaddr : pt.translate v = some paddr) :
    (∀ i < rowSize, pt.translate (v + i) = some (paddr + i)) ↔ pt.Contiguous v := by
  have hlow := translate_add pt hv (i := 0) (by decide)
  have hhigh := translate_add pt hv (i := pageBytes) (by decide)
  rw [if_pos (by decide)] at hlow
  rw [if_neg (lt_irrefl _), Nat.sub_self] at hhigh
  obtain ⟨low, hptlow⟩ : ∃ low, pt (v / pageBytes) = some low := by
    have := hmapped 0 (by decide)
    rw [hlow, Option.isSome_map] at this
    exact Option.isSome_iff_exists.mp this
  obtain ⟨high, hpthigh⟩ : ∃ high, pt (v / pageBytes + 1) = some high := by
    have := hmapped pageBytes (by decide)
    rw [hhigh, Option.isSome_map] at this
    exact Option.isSome_iff_exists.mp this
  rw [Nat.add_zero, hpaddr, hptlow, Option.map_some, Option.some.injEq, Nat.add_zero] at hlow
  subst hlow
  have hcont : pt.Contiguous v ↔ high = low + 1 := by
    simp [PageTable.Contiguous, hptlow, hpthigh]
  rw [hcont]
  constructor
  · intro himage
    have := himage pageBytes (by decide)
    rw [hhigh, hpthigh, Option.map_some, Option.some.injEq] at this
    simp only [show pageBytes = 4096 from rfl] at this
    omega
  · rintro rfl i hi
    rw [translate_add pt hv hi, hptlow, hpthigh]
    simp only [show pageBytes = 4096 from rfl, Option.map_some] at *
    split
    · rfl
    · rw [Option.some.injEq]
      omega

end Row

/-! ### Row operations -/

/-- A row operation acts on the rows that the program named exactly if the pages of each row that it
touches are mapped to physical pages in a row. -/
theorem rowOp_acts_on_named_rows_iff {F : Type} (pt : PageTable) (fault : F) (flags : Operand → Nat)
    (req : Request) (virt : RowOpPayload) (order : List Operand) (hnodup : order.Nodup)
    (horder : ∀ o, o ∈ order ↔ virt.op.uses o = true)
    (haligned : ∀ o, virt.op.uses o = true → rowSize ∣ virt.get o)
    (hmapped : ∀ o, virt.op.uses o = true → ∀ i < rowSize, (pt.translate (virt.get o + i)).isSome = true) :
    ∃ st, answerAll (fun o vaddr => pt.answer fault (flags o) vaddr)
        (ofRowOp req (req.splitRowOp virt) virt) order = .ok st ∧
      TimingSimpleCPU.finishTranslation st = .sendData st.data ∧ st.data.op = virt.op ∧
      ((∀ o, virt.op.touches o = true → ∀ i < rowSize,
          pt.translate (virt.get o + i) = some (st.data.touched o i)) ↔
        ∀ o, virt.op.touches o = true → pt.Contiguous (virt.get o)) := by
  set tlb : Operand → Nat → Answer F := fun o vaddr => pt.answer fault (flags o) vaddr with htlb
  obtain ⟨st, hst, hfin⟩ := answerAll_finished order (answered_ofRowOp req virt (tlbAnswers tlb virt)) hnodup
    (fun o ho => ⟨(horder o).mp ho, Finset.notMem_empty o⟩)
    (fun o ho => by simpa [horder] using mem_used.mp ho)
    (List.ne_nil_of_mem ((horder .dest).mpr rfl))
  -- the TLB answers with the image of the first byte of the row
  have htranslated : ∀ o, virt.op.uses o = true → pt.translate (virt.get o) = some (st.data.get o) := by
    intro o ho
    obtain ⟨paddr, hpaddr⟩ := Option.isSome_iff_exists.mp (hmapped o ho 0 (by decide))
    rw [Nat.add_zero] at hpaddr
    rw [hfin.data o ho, physical, tlbAnswers, htlb]
    simp only [PageTable.answer, hpaddr]
  have hfault : st.getFault = none := by
    rw [hfin.fault, tlbAnswers, htlb]
    simp only [PageTable.answer, htranslated .dest rfl, faultOf]
  refine ⟨st, hst, ?_, hfin.op, ?_⟩
  · simp [TimingSimpleCPU.finishTranslation, hfault, hfin.notSplit]
  · apply forall_congr'
    intro o
    apply imp_congr_right
    intro ho
    have huse := uses_of_touches ho
    exact row_image_iff (haligned o huse) (hmapped o huse) (htranslated o huse)

/-- Pages 3 and 9 are mapped to each other's frame, every other page to the frame of its number. -/
def swappedPages : PageTable := fun vpn => some (Equiv.swap 3 9 vpn)

lemma swappedPages_mapped (vaddr : Nat) : (swappedPages.translate vaddr).isSome = true := rfl

theorem rowOp_acts_on_named_rows_iff_swappedPages :
    ∃ st, answerAll (fun _ vaddr => swappedPages.answer () 0 vaddr)
        (ofRowOp ⟨0, 32, none, 0⟩ (Request.splitRowOp ⟨0, 32, none, 0⟩ ⟨.rowNot, 8192, 16384, 0⟩)
          ⟨.rowNot, 8192, 16384, 0⟩) [.src1, .dest] = .ok st ∧
      TimingSimpleCPU.finishTranslation st = .sendData st.data ∧ st.data.op = .rowNot ∧
      ((∀ o, RowOp.touches .rowNot o = true → ∀ i < rowSize,
          swappedPages.translate (RowOpPayload.get ⟨.rowNot, 8192, 16384, 0⟩ o + i) =
            some (st.data.touched o i)) ↔
        ∀ o, RowOp.touches .rowNot o = true →
          swappedPages.Contiguous (RowOpPayload.get ⟨.rowNot, 8192, 16384, 0⟩ o)) :=
  rowOp_acts_on_named_rows_iff swappedPages () (fun _ => 0) ⟨0, 32, none, 0⟩ ⟨.rowNot, 8192, 16384, 0⟩
    [.src1, .dest] (by decide) (fun o => by cases o <;> decide) (fun o _ => by cases o <;> decide)
    (fun o _ i _ => swappedPages_mapped _)

/-- Every page is mapped, yet the second page of the destination that is written is not the program's. -/
theorem second_page_not_touched :
    (∀ vaddr, (swappedPages.translate vaddr).isSome = true) ∧
    ∃ st, answerAll (fun _ vaddr => swappedPages.answer () 0 vaddr)
        (ofRowOp ⟨0, 32, none, 0⟩ (Request.splitRowOp ⟨0, 32, none, 0⟩ ⟨.rowNot, 8192, 16384, 0⟩)
          ⟨.rowNot, 8192, 16384, 0⟩) [.src1, .dest] = .ok st ∧
      TimingSimpleCPU.finishTranslation st = .sendData st.data ∧
      st.data.touched .dest pageBytes = 12288 ∧ swappedPages.translate (8192 + pageBytes) = some 36864 :=
  ⟨swappedPages_mapped, _, rfl, rfl, rfl, rfl⟩

end MimdramLean.Proofs
