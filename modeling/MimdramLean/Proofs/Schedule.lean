import MimdramLean.Library.Window
import MimdramLean.Proofs.Ticks
import Mathlib.Data.Fintype.Card

/-!
# Legal command schedules

When the commands of a rank, in the order they are issued, respect the timing of the device, and
the invariant by which the bookkeeping of `Bank` and `Rank` enforces it: `actAllowedAt`,
`preAllowedAt` and `colAllowedAt` bound what has been issued so far, and `actTicks` is the window of
the last activates.
-/

namespace MimdramLean.Proofs
open Library

variable {p : Params}

/-- The activates of a rank: bank and tick. -/
def activates (h : List (Command p)) : List (Fin p.banksPerRank × Nat) :=
  h.filterMap fun
    | .act b _ t => some (b, t)
    | _ => none

/-- The activates and precharges of one bank. -/
def rowCommands (b : Fin p.banksPerRank) (h : List (Command p)) : List (Command p) :=
  h.filter fun
    | .act i _ _ => decide (i = b)
    | .pre i _ => decide (i = b)
    | .col _ _ _ => false

/-- Activates and precharges of a bank alternate, with tRAS and tRP between them. -/
def Follows : Command p → Command p → Prop
  | .act _ _ t, .pre _ t' => t + p.tRAS ≤ t'
  | .pre _ t, .act _ _ t' => t + p.tRP ≤ t'
  | _, _ => False

/-- The row is open, and has been for tRCD, when a column command accesses it. -/
def ColumnsReady (h : List (Command p)) : Prop :=
  ∀ pre b row t post, h = pre ++ .col b row t :: post →
    ∃ t₀, (rowCommands b pre).getLast? = some (.act b row t₀) ∧ t₀ + p.tRCD ≤ t

structure Legal (h : List (Command p)) : Prop where
  first : ∀ b c, (rowCommands b h).head? = some c → ∃ row t, c = .act b row t
  cycle : ∀ b, (rowCommands b h).IsChain Follows
  rrd : (activates h).Pairwise fun x y => x.2 + Rank.rrdDelay p x.1 y.1 ≤ y.2
  xaw : 0 < p.activationLimit → ∀ k x y, (activates h)[k]? = some x →
    (activates h)[k + p.activationLimit]? = some y → x.2 + p.tXAW ≤ y.2
  rcd : ColumnsReady h

/-- An activate follows a precharge, and a precharge an activate. -/
def Alternate : Command p → Command p → Prop
  | .act _ _ _, .pre _ _ => True
  | .pre _ _, .act _ _ _ => True
  | _, _ => False

/-- Whether a bank is open after its last command. -/
def BankOrder (rk : Rank p) (b : Fin p.banksPerRank) : Prop :=
  match (rowCommands b rk.history).getLast? with
  | none => (rk.banks b).openRow = Row.noRow
  | some (.act _ row _) => (rk.banks b).openRow = row ∧ row ≠ Row.noRow
  | some (.pre _ _) => (rk.banks b).openRow = Row.noRow
  | some (.col _ _ _) => False

/-- What a bank remembers of the last command that opened or closed it. -/
def BankInv (rk : Rank p) (b : Fin p.banksPerRank) : Prop :=
  match (rowCommands b rk.history).getLast? with
  | none => (rk.banks b).openRow = Row.noRow
  | some (.act _ row t) =>
    (rk.banks b).openRow = row ∧ row ≠ Row.noRow ∧ t + p.tRAS ≤ (rk.banks b).preAllowedAt
  | some (.pre _ t) => (rk.banks b).openRow = Row.noRow ∧ t + p.tRP ≤ (rk.banks b).actAllowedAt
  | some (.col _ _ _) => False

/-- The open row of the bank takes column commands from `colAllowedAt` on. -/
def ColReady (rk : Rank p) (b : Fin p.banksPerRank) : Prop :=
  ∀ row t, (rowCommands b rk.history).getLast? = some (.act b row t) →
    t + p.tRCD ≤ (rk.banks b).colAllowedAt

/-- The banks with an open row. -/
def openBanks (rk : Rank p) : Finset (Fin p.banksPerRank) :=
  Finset.univ.filter fun b => (rk.banks b).openRow ≠ Row.noRow

/-- `numBanksActive` is the number of open banks. -/
def ActiveCounted (rk : Rank p) : Prop := rk.numBanksActive = (openBanks rk).card

lemma ActiveCounted.congr {rk rk' : Rank p} (h : ActiveCounted rk)
    (hn : rk'.numBanksActive = rk.numBanksActive)
    (ho : ∀ b, (rk'.banks b).openRow = (rk.banks b).openRow) : ActiveCounted rk' := by
  rw [ActiveCounted, hn, h]
  simp only [openBanks, ho]

/-- Another bank can be opened as long as one is closed. -/
lemma ActiveCounted.room {rk : Rank p} (h : ActiveCounted rk) {b : Fin p.banksPerRank}
    (hclosed : (rk.banks b).openRow = Row.noRow) : rk.numBanksActive + 1 ≤ p.banksPerRank := by
  have hb : b ∉ openBanks rk := by simp [openBanks, hclosed]
  have hlt : (openBanks rk).card < p.banksPerRank := by simpa using Finset.card_lt_univ_of_notMem hb
  rw [h]
  omega

lemma ActiveCounted.ne_zero {rk : Rank p} (h : ActiveCounted rk) {b : Fin p.banksPerRank}
    (hopen : (rk.banks b).openRow ≠ Row.noRow) : rk.numBanksActive ≠ 0 := by
  rw [h]
  exact Finset.card_ne_zero_of_mem (by simpa [openBanks] using hopen)

/-- What the bookkeeping says of the order of the commands, whatever their ticks are. -/
structure RankOrder (rk : Rank p) : Prop where
  first : ∀ b c, (rowCommands b rk.history).head? = some c → ∃ row t, c = .act b row t
  alternate : ∀ b, (rowCommands b rk.history).IsChain Alternate
  actTicks : rk.actTicks = window 0 p.activationLimit ((activates rk.history).map Prod.snd)
  active : rk.numBanksActive = (openBanks rk).card
  last : ∀ b, BankOrder rk b

/-- What it says of their ticks. -/
structure RankInv (rk : Rank p) : Prop extends RankOrder rk where
  cycle : ∀ b, (rowCommands b rk.history).IsChain Follows
  rrdPast : (activates rk.history).Pairwise fun x y => x.2 + Rank.rrdDelay p x.1 y.1 ≤ y.2
  /-- an activate at tick 0 counts as none -/
  xawPast : 0 < p.activationLimit → ∀ k x y, (activates rk.history)[k]? = some x →
    (activates rk.history)[k + p.activationLimit]? = some y → x.2 ≠ 0 → x.2 + p.tXAW ≤ y.2
  rcd : ColumnsReady rk.history
  bank : ∀ b, BankInv rk b
  rrd : ∀ x ∈ activates rk.history, ∀ i, x.2 + Rank.rrdDelay p x.1 i ≤ (rk.banks i).actAllowedAt
  xaw : rk.oldestAct ≠ 0 → ∀ i, rk.oldestAct + p.tXAW ≤ (rk.banks i).actAllowedAt

lemma rankOrder_init (p : Params) (ev : Option Nat) : RankOrder { Rank.init p with refreshEvent := ev } where
  first := by simp [Rank.init, rowCommands]
  alternate := by simp [Rank.init, rowCommands]
  actTicks := by simp [Rank.init, activates, window]
  active := by simp [Rank.init, openBanks]
  last := by simp [Rank.init, BankOrder, rowCommands]

lemma rankInv_init (p : Params) (ev : Option Nat) : RankInv { Rank.init p with refreshEvent := ev } where
  toRankOrder := rankOrder_init p ev
  cycle := by simp [Rank.init, rowCommands]
  rrdPast := by simp [Rank.init, activates]
  xawPast := by simp [Rank.init, activates]
  rcd := by simp [Rank.init, ColumnsReady]
  bank := by simp [Rank.init, BankInv, rowCommands]
  rrd := by simp [Rank.init, activates]
  xaw := by
    intro hne
    refine absurd ?_ hne
    simp only [Rank.oldestAct, Rank.init]
    cases p.activationLimit with
    | zero => rfl
    | succ n => simp [List.getLastD_eq_getLast?, List.getLast?_replicate]

/-- With positive ticks the bookkeeping gives a legal schedule. -/
lemma RankInv.legal {rk : Rank p} (h : RankInv rk) (hpos : ∀ x ∈ activates rk.history, 0 < x.2) :
    Legal rk.history where
  first := h.first
  cycle := h.cycle
  rrd := h.rrdPast
  xaw := fun hlim k x y hx hy =>
    h.xawPast hlim k x y hx hy (hpos x (List.mem_of_getElem? hx)).ne'
  rcd := h.rcd

/-! ### Appending a command -/

@[simp] lemma activates_act (h : List (Command p)) (b : Fin p.banksPerRank) (row t : Nat) :
    activates (h ++ [.act b row t]) = activates h ++ [(b, t)] := by simp [activates]

@[simp] lemma activates_pre (h : List (Command p)) (b : Fin p.banksPerRank) (t : Nat) :
    activates (h ++ [.pre b t]) = activates h := by simp [activates]

@[simp] lemma activates_col (h : List (Command p)) (b : Fin p.banksPerRank) (row t : Nat) :
    activates (h ++ [.col b row t]) = activates h := by simp [activates]

lemma rowCommands_act (h : List (Command p)) (b i : Fin p.banksPerRank) (row t : Nat) :
    rowCommands i (h ++ [.act b row t]) =
      if b = i then rowCommands i h ++ [.act b row t] else rowCommands i h := by
  by_cases hb : b = i <;> simp [rowCommands, hb]

lemma rowCommands_pre (h : List (Command p)) (b i : Fin p.banksPerRank) (t : Nat) :
    rowCommands i (h ++ [.pre b t]) =
      if b = i then rowCommands i h ++ [.pre b t] else rowCommands i h := by
  by_cases hb : b = i <;> simp [rowCommands, hb]

@[simp] lemma rowCommands_col (h : List (Command p)) (b i : Fin p.banksPerRank) (row t : Nat) :
    rowCommands i (h ++ [.col b row t]) = rowCommands i h := by simp [rowCommands]

lemma mem_rowCommands_act {h : List (Command p)} {b i : Fin p.banksPerRank} {row t : Nat}
    (hm : .act i row t ∈ rowCommands b h) : i = b := by
  simpa [rowCommands] using (List.mem_filter.mp hm).2

/-- A command is appended, and if it is a column command then its row is ready. -/
lemma columnsReady_snoc {h : List (Command p)} {c : Command p} (hr : ColumnsReady h)
    (hc : ∀ b row t, c = .col b row t →
      ∃ t₀, (rowCommands b h).getLast? = some (.act b row t₀) ∧ t₀ + p.tRCD ≤ t) :
    ColumnsReady (h ++ [c]) := by
  intro pre b row t post heq
  rcases snoc_eq_append_cons heq with ⟨rfl, hlast⟩ | ⟨post', rfl⟩
  · exact hc b row t hlast
  · exact hr pre b row t post' rfl

/-! ### What an open or closed bank remembers -/

lemma BankOrder.of_closed {rk : Rank p} {b : Fin p.banksPerRank} (h : BankOrder rk b)
    (hc : (rk.banks b).openRow = Row.noRow) {c : Command p}
    (hlast : (rowCommands b rk.history).getLast? = some c) : ∃ i t, c = .pre i t := by
  simp only [BankOrder, hlast] at h
  cases c with
  | act i row t => exact absurd (h.1.symm.trans hc) h.2
  | pre i t => exact ⟨i, t, rfl⟩
  | col i row t => exact h.elim

lemma BankOrder.of_open {rk : Rank p} {b : Fin p.banksPerRank} (h : BankOrder rk b)
    (ho : (rk.banks b).openRow ≠ Row.noRow) : ∃ row t, (rowCommands b rk.history).getLast? = some (.act b row t) := by
  cases hlast : (rowCommands b rk.history).getLast? with
  | none => exact absurd (by simpa only [BankOrder, hlast] using h) ho
  | some c =>
    simp only [BankOrder, hlast] at h
    cases c with
    | act i row t =>
      obtain rfl : i = b := mem_rowCommands_act (List.mem_of_getLast? hlast)
      exact ⟨row, t, rfl⟩
    | pre i t => exact absurd h ho
    | col i row t => exact h.elim

lemma BankOrder.congr {rk rk' : Rank p} {b : Fin p.banksPerRank} (h : BankOrder rk b)
    (hc : rowCommands b rk'.history = rowCommands b rk.history)
    (ho : (rk'.banks b).openRow = (rk.banks b).openRow) : BankOrder rk' b := by
  unfold BankOrder at h ⊢
  rwa [hc, ho]

/-- A rank that gets no activate or precharge keeps its order. -/
lemma RankOrder.congr {rk rk' : Rank p} (h : RankOrder rk)
    (hc : ∀ b, rowCommands b rk'.history = rowCommands b rk.history)
    (hact : activates rk'.history = activates rk.history) (ha : rk'.actTicks = rk.actTicks)
    (hn : rk'.numBanksActive = rk.numBanksActive)
    (ho : ∀ b, (rk'.banks b).openRow = (rk.banks b).openRow) : RankOrder rk' where
  first := fun b => by rw [hc b]; exact h.first b
  alternate := fun b => by rw [hc b]; exact h.alternate b
  actTicks := by rw [hact, ha, h.actTicks]
  active := ActiveCounted.congr h.active hn ho
  last := fun b => (h.last b).congr (hc b) (ho b)

lemma BankInv.of_closed {rk : Rank p} {b : Fin p.banksPerRank} (h : BankInv rk b)
    (hc : (rk.banks b).openRow = Row.noRow) {c : Command p}
    (hlast : (rowCommands b rk.history).getLast? = some c) :
    ∃ i t, c = .pre i t ∧ t + p.tRP ≤ (rk.banks b).actAllowedAt := by
  simp only [BankInv, hlast] at h
  cases c with
  | act i row t => exact absurd (h.1.symm.trans hc) h.2.1
  | pre i t => exact ⟨i, t, rfl, h.2⟩
  | col i row t => exact h.elim

lemma BankInv.of_open {rk : Rank p} {b : Fin p.banksPerRank} (h : BankInv rk b)
    (ho : (rk.banks b).openRow ≠ Row.noRow) :
    ∃ t, (rowCommands b rk.history).getLast? = some (.act b (rk.banks b).openRow t) ∧
      t + p.tRAS ≤ (rk.banks b).preAllowedAt := by
  cases hlast : (rowCommands b rk.history).getLast? with
  | none => exact absurd (by simpa only [BankInv, hlast] using h) ho
  | some c =>
    simp only [BankInv, hlast] at h
    cases c with
    | act i row t =>
      obtain rfl : i = b := mem_rowCommands_act (List.mem_of_getLast? hlast)
      exact ⟨t, by rw [h.1], h.2.2⟩
    | pre i t => exact absurd h.1 ho
    | col i row t => exact h.elim

/-- A bank that gets no command keeps what it remembers when its times are pushed back. -/
lemma BankInv.mono {rk rk' : Rank p} {b : Fin p.banksPerRank} (h : BankInv rk b)
    (hc : rowCommands b rk'.history = rowCommands b rk.history)
    (ho : (rk'.banks b).openRow = (rk.banks b).openRow)
    (hp : (rk.banks b).preAllowedAt ≤ (rk'.banks b).preAllowedAt)
    (ht : (rk.banks b).actAllowedAt ≤ (rk'.banks b).actAllowedAt) : BankInv rk' b := by
  unfold BankInv at h ⊢
  rw [hc, ho]
  split at h
  · exact h
  · exact ⟨h.1, h.2.1, le_trans h.2.2 hp⟩
  · exact ⟨h.1, le_trans h.2 ht⟩
  · exact h

/-- The window stays enforced when the times are pushed back. -/
lemma RankInv.xaw_mono {rk rk' : Rank p} (h : RankInv rk) (ha : rk'.actTicks = rk.actTicks)
    (ht : ∀ b, (rk.banks b).actAllowedAt ≤ (rk'.banks b).actAllowedAt) (hne : rk'.oldestAct ≠ 0)
    (i : Fin p.banksPerRank) : rk'.oldestAct + p.tXAW ≤ (rk'.banks i).actAllowedAt := by
  have hold : rk'.oldestAct = rk.oldestAct := by simp only [Rank.oldestAct, ha]
  rw [hold] at hne ⊢
  exact le_trans (h.xaw hne i) (ht i)

/-- The invariant only gets stronger claims about the future when the times are pushed back. -/
lemma RankInv.mono {rk rk' : Rank p} (h : RankInv rk) (hh : rk'.history = rk.history)
    (ha : rk'.actTicks = rk.actTicks) (hn : rk'.numBanksActive = rk.numBanksActive)
    (ho : ∀ b, (rk'.banks b).openRow = (rk.banks b).openRow)
    (hp : ∀ b, (rk.banks b).preAllowedAt ≤ (rk'.banks b).preAllowedAt)
    (ht : ∀ b, (rk.banks b).actAllowedAt ≤ (rk'.banks b).actAllowedAt) : RankInv rk' where
  toRankOrder := h.toRankOrder.congr (fun b => by rw [hh]) (by rw [hh]) ha hn ho
  cycle := by rw [hh]; exact h.cycle
  rrdPast := by rw [hh]; exact h.rrdPast
  xawPast := by rw [hh]; exact h.xawPast
  rcd := by rw [hh]; exact h.rcd
  bank := fun b => (h.bank b).mono (by rw [hh]) (ho b) (hp b) (ht b)
  rrd := by
    intro x hx i
    rw [hh] at hx
    exact le_trans (h.rrd x hx i) (ht i)
  xaw := h.xaw_mono ha ht

/-! ### An activate -/

section Activate

variable {rk rk' : Rank p} {b : Fin p.banksPerRank} {row t pre col : Nat}

/-- No activate so far is later than one that the bank allows. -/
lemma RankInv.act_le (h : RankInv rk) (ht : (rk.banks b).actAllowedAt ≤ t)
    {x : Fin p.banksPerRank × Nat} (hx : x ∈ activates rk.history) : x.2 ≤ t := by
  have hr := h.rrd x hx b
  omega

lemma Activates.oldestAct_le (hact : Activates rk rk' b row t pre col) (h : RankInv rk)
    (ht : (rk.banks b).actAllowedAt ≤ t) : rk'.oldestAct ≤ t := by
  have hmem : ∀ y ∈ rk'.actTicks, y ≤ t := by
    intro y hy
    rw [hact.actTicks] at hy
    split at hy
    · cases hy
    · rcases List.mem_cons.mp hy with rfl | hy
      · exact le_rfl
      · have hy' := List.mem_of_mem_dropLast hy
        rw [h.actTicks] at hy'
        rcases mem_window 0 hy' with hy' | rfl
        · obtain ⟨x, hx, rfl⟩ := List.mem_map.mp hy'
          exact h.act_le ht hx
        · exact Nat.zero_le _
  exact Proofs.oldestAct_le hmem

/-- The window is full once as many activates as it holds have been issued. -/
lemma RankInv.oldestAct_eq (h : RankInv rk) (hlim : 0 < p.activationLimit)
    {x : Fin p.banksPerRank × Nat} {k : Nat} (hk : k + p.activationLimit = (activates rk.history).length)
    (hx : (activates rk.history)[k]? = some x) : rk.oldestAct = x.2 := by
  have hlen : p.activationLimit ≤ ((activates rk.history).map Prod.snd).length := by
    rw [List.length_map]
    omega
  unfold Rank.oldestAct
  rw [h.actTicks, List.getLastD_eq_getLast?, getLast?_window 0 hlim hlen, List.length_map,
    List.getElem?_map, show (activates rk.history).length - p.activationLimit = k by omega, hx]
  rfl

/-- An activate at a tick the bank allows is tXAW after the one that leaves the window. -/
lemma RankInv.xaw_snoc (h : RankInv rk) (ht : (rk.banks b).actAllowedAt ≤ t) (hlim : 0 < p.activationLimit)
    {k : Nat} {x y : Fin p.banksPerRank × Nat} (hx : (activates rk.history ++ [(b, t)])[k]? = some x)
    (hy : (activates rk.history ++ [(b, t)])[k + p.activationLimit]? = some y) (hne : x.2 ≠ 0) :
    x.2 + p.tXAW ≤ y.2 := by
  have hlt : k + p.activationLimit < (activates rk.history ++ [(b, t)]).length :=
    (List.getElem?_eq_some_iff.mp hy).1
  simp only [List.length_append, List.length_cons, List.length_nil] at hlt
  rw [List.getElem?_append_left (by omega)] at hx
  by_cases hk : k + p.activationLimit < (activates rk.history).length
  · rw [List.getElem?_append_left hk] at hy
    exact h.xawPast hlim k x y hx hy hne
  · -- the new activate closes a window whose oldest one is the oldest remembered
    have hk' : k + p.activationLimit = (activates rk.history).length := by omega
    rw [hk', List.getElem?_concat_length] at hy
    obtain rfl := Option.some.inj hy
    have hold := h.oldestAct_eq hlim hk' hx
    have hx' := h.xaw (by rw [hold]; exact hne) b
    rw [hold] at hx'
    exact le_trans hx' ht

lemma openBanks_activate (hact : Activates rk rk' b row t pre col) (hrow : row ≠ Row.noRow) :
    openBanks rk' = insert b (openBanks rk) := by
  ext i
  simp only [openBanks, Finset.mem_filter, Finset.mem_univ, true_and, Finset.mem_insert, hact.openRow]
  by_cases hi : i = b
  · simp [hi, hrow]
  · simp [hi]

lemma ActiveCounted.activate (h : ActiveCounted rk) (hact : Activates rk rk' b row t pre col)
    (hclosed : (rk.banks b).openRow = Row.noRow) (hrow : row ≠ Row.noRow) : ActiveCounted rk' := by
  rw [ActiveCounted, hact.numBanksActive, h, openBanks_activate hact hrow, Finset.card_insert_of_notMem]
  simp [openBanks, hclosed]

/-- An activate of a closed bank keeps the order. -/
theorem RankOrder.activate (h : RankOrder rk) (hact : Activates rk rk' b row t pre col)
    (hclosed : (rk.banks b).openRow = Row.noRow) (hrow : row ≠ Row.noRow) : RankOrder rk' where
  first := by
    intro i c hc
    rw [hact.history, rowCommands_act] at hc
    split at hc
    · rename_i hb
      subst hb
      rcases head?_snoc hc with hc | ⟨-, rfl⟩
      · exact h.first b c hc
      · exact ⟨row, t, rfl⟩
    · exact h.first i c hc
  alternate := by
    intro i
    rw [hact.history, rowCommands_act]
    split
    · rename_i hb
      subst hb
      refine isChain_snoc (h.alternate b) fun c hlast => ?_
      obtain ⟨i, t₀, rfl⟩ := (h.last b).of_closed hclosed hlast
      trivial
    · exact h.alternate i
  actTicks := by
    rw [hact.actTicks, hact.history, activates_act, List.map_append, h.actTicks]
    exact (window_snoc 0 p.activationLimit _ t).symm
  active := ActiveCounted.activate h.active hact hclosed hrow
  last := by
    intro i
    by_cases hi : b = i
    · subst hi
      simp [BankOrder, hact.history, rowCommands_act, hact.openRow, hrow]
    · refine (h.last i).congr ?_ ?_
      · rw [hact.history, rowCommands_act, if_neg hi]
      · rw [hact.openRow, if_neg (Ne.symm hi)]

/-- An activate at a tick the bank allows keeps the invariant. -/
theorem RankInv.activate (h : RankInv rk) (hact : Activates rk rk' b row t pre col)
    (hclosed : (rk.banks b).openRow = Row.noRow) (hrow : row ≠ Row.noRow)
    (ht : (rk.banks b).actAllowedAt ≤ t) (hpre : t + p.tRAS ≤ pre) (hfit : t + totalDelay p < 2 ^ 64) :
    RankInv rk' where
  toRankOrder := h.toRankOrder.activate hact hclosed hrow
  cycle := by
    intro i
    rw [hact.history, rowCommands_act]
    split
    · rename_i hb
      subst hb
      refine isChain_snoc (h.cycle b) fun c hlast => ?_
      obtain ⟨i, t₀, rfl, hrp⟩ := (h.bank b).of_closed hclosed hlast
      exact le_trans hrp ht
    · exact h.cycle i
  rrdPast := by
    rw [hact.history, activates_act, List.pairwise_append]
    refine ⟨h.rrdPast, List.pairwise_singleton _ _, fun x hx y hy => ?_⟩
    obtain rfl : y = (b, t) := by simpa using hy
    exact le_trans (h.rrd x hx b) ht
  xawPast := by
    intro hlim k x y hx hy hne
    rw [hact.history, activates_act] at hx hy
    exact h.xaw_snoc ht hlim hx hy hne
  rcd := by
    rw [hact.history]
    exact columnsReady_snoc h.rcd (by simp)
  bank := by
    intro i
    by_cases hi : b = i
    · subst hi
      simp [BankInv, hact.history, rowCommands_act, hact.openRow, hact.preAllowedAt, hrow, hpre]
    · refine (h.bank i).mono ?_ ?_ ?_ (hact.actAllowedAt i)
      · rw [hact.history, rowCommands_act, if_neg hi]
      · rw [hact.openRow, if_neg (Ne.symm hi)]
      · rw [hact.preAllowedAt, if_neg (Ne.symm hi)]
  rrd := by
    intro x hx i
    rw [hact.history, activates_act] at hx
    rcases List.mem_append.mp hx with hx | hx
    · exact le_trans (h.rrd x hx i) (hact.actAllowedAt i)
    · obtain rfl : x = (b, t) := by simpa using hx
      have hrrd := hact.rrd i
      rwa [add64_rrdDelay hfit] at hrrd
  xaw := by
    intro hne i
    have hold := hact.oldestAct_le h ht
    have hxaw := hact.xaw i (by rw [add64_rrdDelay hfit]; exact Nat.le_add_right _ _) hne hold
    rwa [add64_of_lt (by unfold totalDelay at hfit; omega)] at hxaw

lemma Activates.colReady_of_ne (hact : Activates rk rk' b row t pre col) {i : Fin p.banksPerRank}
    (hr : ColReady rk i) (hi : i ≠ b) : ColReady rk' i := by
  intro row' t' hlast
  rw [hact.history, rowCommands_act, if_neg (Ne.symm hi)] at hlast
  exact le_trans (hr row' t' hlast) (hact.le_colAllowedAt i)

/-- The activated bank itself is ready tRCD later, if the command takes care of that. -/
lemma Activates.colReady_self (hact : Activates rk rk' b row t pre (t + p.tRCD)) : ColReady rk' b := by
  intro row' t' hlast
  rw [hact.history, rowCommands_act, if_pos rfl, List.getLast?_concat] at hlast
  obtain ⟨-, -, rfl⟩ := Command.act.inj (Option.some.inj hlast)
  rw [hact.colAllowedAt, if_pos rfl]
  exact le_max_left _ _

end Activate

/-! ### A precharge -/

section Precharge

variable {rk rk' : Rank p} {b : Fin p.banksPerRank} {t : Nat}

lemma openBanks_precharge (hpre : Precharges rk rk' b t) : openBanks rk' = (openBanks rk).erase b := by
  ext i
  simp only [openBanks, Finset.mem_filter, Finset.mem_univ, true_and, Finset.mem_erase, hpre.openRow]
  by_cases hi : i = b
  · simp [hi]
  · simp [hi]

lemma ActiveCounted.precharge (h : ActiveCounted rk) (hpre : Precharges rk rk' b t)
    (hopen : (rk.banks b).openRow ≠ Row.noRow) : ActiveCounted rk' := by
  rw [ActiveCounted, hpre.numBanksActive, h, openBanks_precharge hpre, Finset.card_erase_of_mem]
  simp [openBanks, hopen]

/-- A precharge of an open bank keeps the order. -/
theorem RankOrder.precharge (h : RankOrder rk) (hpre : Precharges rk rk' b t)
    (hopen : (rk.banks b).openRow ≠ Row.noRow) : RankOrder rk' where
  first := by
    intro i c hc
    rw [hpre.history, rowCommands_pre] at hc
    split at hc
    · rename_i hb
      subst hb
      obtain ⟨row, t₀, hlast⟩ := (h.last b).of_open hopen
      rcases head?_snoc hc with hc | ⟨hnil, -⟩
      · exact h.first b c hc
      · simp [hnil] at hlast
    · exact h.first i c hc
  alternate := by
    intro i
    rw [hpre.history, rowCommands_pre]
    split
    · rename_i hb
      subst hb
      refine isChain_snoc (h.alternate b) fun c hlast => ?_
      obtain ⟨row, t₀, hact⟩ := (h.last b).of_open hopen
      rw [hact] at hlast
      obtain rfl := Option.some.inj hlast
      trivial
    · exact h.alternate i
  actTicks := by rw [hpre.actTicks, hpre.history, activates_pre, h.actTicks]
  active := ActiveCounted.precharge h.active hpre hopen
  last := by
    intro i
    by_cases hi : b = i
    · subst hi
      simp [BankOrder, hpre.history, rowCommands_pre, hpre.openRow]
    · refine (h.last i).congr ?_ ?_
      · rw [hpre.history, rowCommands_pre, if_neg hi]
      · rw [hpre.openRow, if_neg (Ne.symm hi)]

/-- A precharge at a tick the bank allows keeps the invariant. -/
theorem RankInv.precharge (h : RankInv rk) (hpre : Precharges rk rk' b t)
    (hopen : (rk.banks b).openRow ≠ Row.noRow) (ht : (rk.banks b).preAllowedAt ≤ t)
    (hfit : t + totalDelay p < 2 ^ 64) : RankInv rk' where
  toRankOrder := h.toRankOrder.precharge hpre hopen
  cycle := by
    intro i
    rw [hpre.history, rowCommands_pre]
    split
    · rename_i hb
      subst hb
      refine isChain_snoc (h.cycle b) fun c hlast => ?_
      obtain ⟨t₀, hact, hras⟩ := (h.bank b).of_open hopen
      rw [hact] at hlast
      obtain rfl := Option.some.inj hlast
      exact le_trans hras ht
    · exact h.cycle i
  rrdPast := by rw [hpre.history, activates_pre]; exact h.rrdPast
  xawPast := by rw [hpre.history, activates_pre]; exact h.xawPast
  rcd := by
    rw [hpre.history]
    exact columnsReady_snoc h.rcd (by simp)
  bank := by
    intro i
    by_cases hi : b = i
    · subst hi
      have hrp := hpre.rp
      rw [add64_tRP hfit] at hrp
      simp [BankInv, hpre.history, rowCommands_pre, hpre.openRow, hrp]
    · refine (h.bank i).mono ?_ ?_ ?_ (hpre.actAllowedAt i)
      · rw [hpre.history, rowCommands_pre, if_neg hi]
      · rw [hpre.openRow, if_neg (Ne.symm hi)]
      · rw [hpre.preAllowedAt, if_neg (Ne.symm hi)]
  rrd := by
    intro x hx i
    rw [hpre.history, activates_pre] at hx
    exact le_trans (h.rrd x hx i) (hpre.actAllowedAt i)
  xaw := h.xaw_mono hpre.actTicks hpre.actAllowedAt

/-- A closed bank is not waited for; the others are as before. -/
lemma Precharges.colReady (hpre : Precharges rk rk' b t) {i : Fin p.banksPerRank}
    (hr : i ≠ b → ColReady rk i) : ColReady rk' i := by
  intro row t' hlast
  rw [hpre.history, rowCommands_pre] at hlast
  split at hlast
  · rw [List.getLast?_concat] at hlast
    cases hlast
  · rename_i hi
    rw [hpre.colAllowedAt]
    exact hr (Ne.symm hi) row t' hlast

end Precharge

/-! ### A column command -/

/-- A column command on the open row, no earlier than the bank allows, keeps the invariant. -/
theorem RankInv.column {rk : Rank p} (h : RankInv rk) {b : Fin p.banksPerRank} {row t : Nat}
    (hopen : (rk.banks b).openRow = row) (hrow : row ≠ Row.noRow) (hready : ColReady rk b)
    (ht : (rk.banks b).colAllowedAt ≤ t) : RankInv (rk.record (.col b row t)) := by
  obtain ⟨t₀, hlast, -⟩ := (h.bank b).of_open (hopen ▸ hrow)
  rw [hopen] at hlast
  have hh : (rk.record (.col b row t)).history = rk.history ++ [.col b row t] := rfl
  refine ⟨?_, ?_, ?_, ?_, ?_, ?_, ?_, h.xaw⟩
  · refine h.toRankOrder.congr (fun b => ?_) ?_ rfl rfl fun _ => rfl
    · rw [hh, rowCommands_col]
    · rw [hh, activates_col]
  · simp only [hh, rowCommands_col]
    exact h.cycle
  · simp only [hh, activates_col]
    exact h.rrdPast
  · simp only [hh, activates_col]
    exact h.xawPast
  · rw [hh]
    refine columnsReady_snoc h.rcd ?_
    intro b' row' t' heq
    obtain ⟨rfl, rfl, rfl⟩ := Command.col.inj heq
    exact ⟨t₀, hlast, le_trans (hready row t₀ hlast) ht⟩
  · intro i
    simp only [BankInv, hh, rowCommands_col]
    exact h.bank i
  · simp only [hh, activates_col]
    exact h.rrd

end MimdramLean.Proofs
