import MimdramLean.Library.Prefixes
import MimdramLean.Library.Simulation
import MimdramLean.Trie
import Mathlib.Logic.Function.Basic

/-!
# A trie is a map from prefixes

The nodes of a trie that carry a value are a partial map from prefixes of a word. Insertion adds one
prefix to the map and removal takes one out, whatever nodes are made, split or joined on the way, and
lookup gives the shortest prefix in the map that the word has.
-/

namespace MimdramLean.Proofs
open Library

namespace TrieNode
open MimdramLean.TrieNode

variable {w : Nat} {α : Type}

/-! ### Well-formed tries -/

lemma node_ne_null {k m : BitVec w} {v : Option α} {l r : TrieNode w α} : node k m v l r ≠ null := by
  intro h
  cases h

/-- The value that a trie has for a prefix. -/
def entry : TrieNode w α → TrieHandle w → Option α
  | null, _ => none
  | node k m v l r, h => if k = h.key ∧ m = h.mask then v else (entry l h).or (entry r h)

/-- A kid of a node for the `n` leading bits of `k` is for the same bits and more. -/
def Extends (k : BitVec w) (n : Nat) : TrieNode w α → Prop
  | null => True
  | node k' m' _ _ _ => ∃ n', n < n' ∧ n' ≤ w ∧ m' = leadingMask w n' ∧ AgreeTo n k' k

/-- The kids differ in the first bit that is theirs, and one kid is the first. -/
def Apart (n : Nat) : TrieNode w α → TrieNode w α → Prop
  | _, null => True
  | null, node .. => False
  | node k _ _ _ _, node k' _ _ _ _ => k.getMsbD n ≠ k'.getMsbD n

structure Shape (k : BitVec w) (n : Nat) (l r : TrieNode w α) : Prop where
  le : n ≤ w
  tidy : k &&& leadingMask w n = k
  left : Extends k n l
  right : Extends k n r
  apart : Apart n l r

/-- Every node has its shape, and a node other than the root has a value or two kids. -/
def Sound : Bool → TrieNode w α → Prop
  | _, null => True
  | root, node k m v l r =>
    (∃ n, m = leadingMask w n ∧ Shape k n l r) ∧ (root = false → v = none → r ≠ null) ∧
      Sound false l ∧ Sound false r

lemma sound_head : Sound true (head : TrieNode w α) :=
  ⟨⟨0, leadingMask_zero.symm, Nat.zero_le _, by simp, trivial, trivial, trivial⟩, nofun, trivial, trivial⟩

lemma Sound.shape {root : Bool} {k : BitVec w} {n : Nat} {v : Option α} {l r : TrieNode w α}
    (hs : Sound root (node k (leadingMask w n) v l r)) (hn : n ≤ w) : Shape k n l r := by
  obtain ⟨⟨n', hm, hshape⟩, -⟩ := hs
  rwa [(leadingMask_inj hn hshape.le).mp hm]

/-- The prefix of length `j` is the prefix of length `n` of `k`, or continues it. -/
structure Covers (k : BitVec w) (n : Nat) (h : TrieHandle w) (j : Nat) : Prop where
  le : n ≤ j
  width : j ≤ w
  mask : h.mask = leadingMask w j
  tidy : h.key &&& h.mask = h.key
  agree : AgreeTo n h.key k

lemma Covers.mono {k k' : BitVec w} {n n' j : Nat} {h : TrieHandle w} (hc : Covers k' n' h j) (hn : n ≤ n')
    (hagree : AgreeTo n k' k) : Covers k n h j where
  le := hn.trans hc.le
  width := hc.width
  mask := hc.mask
  tidy := hc.tidy
  agree := (hc.agree.mono hn).trans hagree

/-- Prefixes below a node are for the bits of the node and more. -/
lemma covers_of_entry {root : Bool} {k : BitVec w} {n : Nat} {v : Option α} {l r : TrieNode w α}
    (hs : Sound root (node k (leadingMask w n) v l r)) (hn : n ≤ w) {h : TrieHandle w} {x : α}
    (hx : entry (node k (leadingMask w n) v l r) h = some x) : ∃ j, Covers k n h j := by
  generalize ht : node k (leadingMask w n) v l r = t at hs hx
  induction t generalizing root k n v l r with
  | null => cases ht
  | node k m v l r ihl ihr =>
    cases ht
    have hshape := hs.shape hn
    obtain ⟨-, -, hl, hr⟩ := hs
    rw [entry] at hx
    split at hx
    · rename_i heq
      obtain ⟨rfl, hmask⟩ := heq
      exact ⟨n, le_rfl, hn, hmask.symm, by rw [← hmask, hshape.tidy], .refl _ _⟩
    · rcases Option.or_eq_some_iff.mp hx with hx | ⟨-, hx⟩
      · cases l with
        | null => cases hx
        | node k' m' v' l' r' =>
          obtain ⟨n', hlt, hle, rfl, hagree⟩ := hshape.left
          obtain ⟨j, hc⟩ := ihl hle rfl hl hx
          exact ⟨j, hc.mono hlt.le hagree⟩
      · cases r with
        | null => cases hx
        | node k' m' v' l' r' =>
          obtain ⟨n', hlt, hle, rfl, hagree⟩ := hshape.right
          obtain ⟨j, hc⟩ := ihr hle rfl hr hx
          exact ⟨j, hc.mono hlt.le hagree⟩

/-- The way down to a prefix. -/
lemma goesAfter_iff {k' : BitVec w} {n' j : Nat} {v' : Option α} {l' r' : TrieNode w α} {h : TrieHandle w}
    (hn' : n' ≤ w) (htidy' : k' &&& leadingMask w n' = k') (hj : j ≤ w) (hmask : h.mask = leadingMask w j)
    (htidy : h.key &&& h.mask = h.key) :
    (node k' (leadingMask w n') v' l' r').goesAfter h.key h.mask = true ↔ Covers k' n' h j := by
  have hmatch : h.key &&& leadingMask w n' = k' ↔ AgreeTo n' h.key k' := by
    rw [← and_leadingMask_eq_iff hn', htidy']
  simp only [goesAfter, matchesKey, Bool.and_eq_true, beq_iff_eq, hmatch, hmask, leadingMask_and_eq_iff hn' hj]
  constructor
  · rintro ⟨hagree, hle⟩
    exact ⟨hle, hj, hmask, htidy, hagree⟩
  · intro hc
    exact ⟨hc.agree, hc.le⟩

/-! ### The two kids of a node -/

/-- A prefix below a kid, seen from the node. -/
lemma kid_of_entry {k : BitVec w} {n : Nat} {kid : TrieNode w α} (hext : Extends k n kid) (hs : Sound false kid)
    {h : TrieHandle w} {x : α} (hx : entry kid h = some x) :
    ∃ k' n' v' l' r' j, kid = node k' (leadingMask w n') v' l' r' ∧ n < n' ∧ n' ≤ w ∧ Covers k' n' h j := by
  cases kid with
  | null => cases hx
  | node k' m' v' l' r' =>
    obtain ⟨n', hlt, hle, rfl, -⟩ := hext
    obtain ⟨j, hc⟩ := covers_of_entry hs hle hx
    exact ⟨k', n', v', l', r', j, rfl, hlt, hle, hc⟩

/-- No prefix is below both kids. -/
lemma Shape.not_both {k : BitVec w} {n : Nat} {l r : TrieNode w α} (hs : Shape k n l r) (hl : Sound false l)
    (hr : Sound false r) {h : TrieHandle w} {x y : α} (hx : entry l h = some x) (hy : entry r h = some y) :
    False := by
  obtain ⟨kl, nl, vl, ll, lr, jl, rfl, hnl, -, hcl⟩ := kid_of_entry hs.left hl hx
  obtain ⟨kr, nr, vr, rl, rr, jr, rfl, hnr, -, hcr⟩ := kid_of_entry hs.right hr hy
  exact hs.apart ((hcl.agree n hnl).symm.trans (hcr.agree n hnr))

/-- A kid is not for the prefix of its parent. -/
lemma Extends.not_self {k : BitVec w} {n : Nat} (hn : n ≤ w) {kid : TrieNode w α} (hext : Extends k n kid)
    (hs : Sound false kid) {h : TrieHandle w} {x : α} (hx : entry kid h = some x) : leadingMask w n ≠ h.mask := by
  obtain ⟨k', n', v', l', r', j, -, hlt, -, hc⟩ := kid_of_entry hext hs hx
  rw [hc.mask, Ne, leadingMask_inj hn hc.width]
  have := hc.le
  omega

/-- The prefixes of a node are its own, those of its first kid and those of its second kid. -/
lemma entry_eq_some {k m : BitVec w} {v : Option α} {l r : TrieNode w α} {root : Bool}
    (hs : Sound root (node k m v l r)) {h : TrieHandle w} {x : α} :
    entry (node k m v l r) h = some x ↔
      h = ⟨k, m⟩ ∧ v = some x ∨ entry l h = some x ∨ entry r h = some x := by
  obtain ⟨⟨n, rfl, hshape⟩, -, hl, hr⟩ := hs
  rw [entry]
  constructor
  · intro hx
    split at hx
    · rename_i heq
      exact .inl ⟨by rw [heq.1, heq.2], hx⟩
    · rcases Option.or_eq_some_iff.mp hx with hx | ⟨-, hx⟩
      · exact .inr (.inl hx)
      · exact .inr (.inr hx)
  · rintro (⟨rfl, rfl⟩ | hx | hx)
    · exact if_pos ⟨rfl, rfl⟩
    · rw [if_neg fun heq => hshape.left.not_self hshape.le hl hx heq.2, hx, Option.some_or]
    · have hnone : entry l h = none := by
        cases hy : entry l h with
        | none => rfl
        | some y => exact (hshape.not_both hl hr hy hx).elim
      rw [if_neg fun heq => hshape.right.not_self hshape.le hr hx heq.2, hnone, hx, Option.none_or]

/-! ### Lookup -/

/-- The word has the prefix. -/
def Matches (h : TrieHandle w) (key : BitVec w) : Prop := key &&& h.mask = h.key

lemma Covers.matches_iff {k key : BitVec w} {n j : Nat} {h : TrieHandle w} (hc : Covers k n h j) :
    Matches h key ↔ AgreeTo j key h.key := by
  rw [Matches, ← and_leadingMask_eq_iff hc.width, ← hc.mask, hc.tidy]

/-- A kid with a prefix of the word matches the word. -/
lemma matchesKey_of_entry {k key : BitVec w} {n : Nat} {kid : TrieNode w α} (hext : Extends k n kid)
    (hs : Sound false kid) {h : TrieHandle w} {x : α} (hx : entry kid h = some x) (hkey : Matches h key) :
    kid.matchesKey key = true := by
  obtain ⟨k', n', v', l', r', j, rfl, hlt, hle, hc⟩ := kid_of_entry hext hs hx
  have hagree : AgreeTo n' key k' := ((hc.matches_iff.mp hkey).mono hc.le).trans hc.agree
  rw [matchesKey, beq_iff_eq, (and_leadingMask_eq_iff hle).mpr hagree, (hs.shape hle).tidy]

/-- The kids of a node do not match the same word. -/
lemma Shape.matches_one {k key : BitVec w} {n : Nat} {l r : TrieNode w α} (hs : Shape k n l r)
    (hml : l.matchesKey key = true) (hmr : r.matchesKey key = true) : False := by
  cases l with
  | null => cases hml
  | node kl ml vl ll lr =>
    cases r with
    | null => cases hmr
    | node kr mr vr rl rr =>
      obtain ⟨nl, hnl, hlw, rfl, -⟩ := hs.left
      obtain ⟨nr, hnr, hrw, rfl, -⟩ := hs.right
      simp only [matchesKey, beq_iff_eq] at hml hmr
      have hbitl : key.getMsbD n = kl.getMsbD n := by
        rw [← hml, BitVec.getMsbD_and, getMsbD_leadingMask hlw]
        simp [hnl]
      have hbitr : key.getMsbD n = kr.getMsbD n := by
        rw [← hmr, BitVec.getMsbD_and, getMsbD_leadingMask hrw]
        simp [hnr]
      exact hs.apart (hbitl.symm.trans hbitr)

/-- The shortest prefix of the word that has a value. -/
def Shortest (E : TrieHandle w → Option α) (key : BitVec w) (h : TrieHandle w) : Prop :=
  Matches h key ∧ ∀ h', Matches h' key → E h' ≠ none → h.mask &&& h'.mask = h.mask

/-- The right answer for a word: its shortest prefix that has a value, if there is one. -/
def Answers (E : TrieHandle w → Option α) (key : BitVec w) : Option (TrieHandle w × α) → Prop
  | some (h, x) => E h = some x ∧ Shortest E key h
  | none => ∀ h, Matches h key → E h = none

/-- Only the prefixes of the word matter. -/
lemma Answers.congr {E E' : TrieHandle w → Option α} {key : BitVec w} {a : Option (TrieHandle w × α)}
    (ha : Answers E key a) (hsame : ∀ h, Matches h key → E' h = E h) : Answers E' key a := by
  cases a with
  | none => exact fun h hm => (hsame h hm).trans (ha h hm)
  | some p =>
    obtain ⟨hentry, hm, hshort⟩ := ha
    exact ⟨(hsame p.1 hm).trans hentry, hm, fun h' hm' hne => hshort h' hm' (hsame h' hm' ▸ hne)⟩

lemma lookupHandle_answers {root : Bool} {t : TrieNode w α} {key : BitVec w} (hs : Sound root t)
    (hkey : t.matchesKey key = true) : Answers (entry t) key (t.lookupHandle key) := by
  induction t generalizing root with
  | null => cases hkey
  | node k m v l r ihl ihr =>
    have hsome := fun h x => entry_eq_some hs (h := h) (x := x)
    have hcovers := fun n hn (hm : m = leadingMask w n) h x => covers_of_entry (hm ▸ hs) hn (h := h) (x := x)
    obtain ⟨⟨n, rfl, hshape⟩, -, hl, hr⟩ := hs
    cases v with
    | some y =>
      have hmatch : Matches ⟨k, leadingMask w n⟩ key := beq_iff_eq.mp hkey
      refine ⟨(hsome _ _).mpr (.inl ⟨rfl, rfl⟩), hmatch, fun h' _ hne => ?_⟩
      obtain ⟨z, hz⟩ := Option.ne_none_iff_exists'.mp hne
      obtain ⟨j, hc⟩ := hcovers n hshape.le rfl h' z hz
      rw [hc.mask]
      exact (leadingMask_and_eq_iff hshape.le hc.width).mpr hc.le
    | none =>
      have hkids : ∀ h x, entry (node k (leadingMask w n) none l r) h = some x ↔
          entry l h = some x ∨ entry r h = some x := fun h x => (hsome h x).trans (by simp)
      simp only [lookupHandle]
      by_cases hml : l.matchesKey key = true
      · rw [if_pos hml]
        refine (ihl hl hml).congr fun h hm => Option.ext fun x => (hkids h x).trans (or_iff_left fun hx => ?_)
        exact hshape.matches_one hml (matchesKey_of_entry hshape.right hr hx hm)
      · rw [if_neg hml]
        have hnl : ∀ h x, Matches h key → entry l h ≠ some x :=
          fun h x hm hx => hml (matchesKey_of_entry hshape.left hl hx hm)
        by_cases hmr : r.matchesKey key = true
        · rw [if_pos hmr]
          exact (ihr hr hmr).congr fun h hm => Option.ext fun x => (hkids h x).trans (or_iff_right (hnl h x hm))
        · rw [if_neg hmr]
          intro h hm
          refine Option.eq_none_iff_forall_ne_some.mpr fun x hx => ?_
          rcases (hkids h x).mp hx with hx | hx
          · exact hnl h x hm hx
          · exact hmr (matchesKey_of_entry hshape.right hr hx hm)

/-! ### Insertion -/

/-- A node for the `n` leading bits of `k` whose trie is the map `E`. -/
structure Stands (root : Bool) (k : BitVec w) (n : Nat) (E : TrieHandle w → Option α) (t : TrieNode w α) :
    Prop where
  place : ∃ v l r, t = node k (leadingMask w n) v l r
  sound : Sound root t
  entry : entry t = E

/-- The second trie has one prefix more. -/
def Grown (t t' : TrieNode w α) (h : TrieHandle w) (val : α) : Prop :=
  ∀ h' x, entry t' h' = some x ↔ h' = h ∧ x = val ∨ entry t h' = some x

/-- A partial map with a value where it had none. -/
lemma update_some_iff {X Y : Type} [DecidableEq X] {f : X → Option Y} {a x : X} {b y : Y} (hnew : f a = none) :
    Function.update f a (some b) x = some y ↔ x = a ∧ y = b ∨ f x = some y := by
  by_cases hx : x = a
  · simp [hx, hnew, eq_comm]
  · simp [hx]

lemma Grown.entry_eq {t t' : TrieNode w α} {h : TrieHandle w} {val : α} (hg : Grown t t' h val)
    (hnew : entry t h = none) : entry t' = Function.update (entry t) h (some val) :=
  funext fun h' => Option.ext fun x => (hg h' x).trans (update_some_iff hnew).symm

lemma Stands.grown {root : Bool} {k : BitVec w} {n : Nat} {t t' : TrieNode w α} {h : TrieHandle w} {val : α}
    (hst : Stands root k n (Function.update (TrieNode.entry t) h (some val)) t')
    (hnew : TrieNode.entry t h = none) : Grown t t' h val := by
  intro h' x
  rw [hst.entry, update_some_iff hnew]

/-- The mask that the walk down a leg stops at. -/
lemma walkMask_spec {key kidKey : BitVec w} {nn : Nat} (hnn : nn ≤ w) {fuel i : Nat} (hi : i ≤ nn)
    (hfuel : nn - i < fuel) (hagree : AgreeTo i key kidKey) :
    ∃ j, i ≤ j ∧ j ≤ nn ∧ walkMask key kidKey (leadingMask w nn) fuel (leadingMask w i) = leadingMask w j ∧
      AgreeTo j key kidKey ∧ (j = nn ∨ key.getMsbD j ≠ kidKey.getMsbD j) := by
  induction fuel generalizing i with
  | zero => omega
  | succ fuel ih =>
    rw [walkMask]
    by_cases hlast : i = nn
    · refine ⟨i, le_rfl, hi, ?_, hagree, .inl hlast⟩
      simp [hlast]
    · have hnext : extendMask (leadingMask w i) = leadingMask w (i + 1) := by
        rw [extendMask, leadingMask_succ (by omega) (by omega), Nat.min_eq_left (by omega)]
      have hcur : leadingMask w i ≠ leadingMask w nn := by
        rw [Ne, leadingMask_inj (by omega) hnn]
        exact hlast
      by_cases hsame : AgreeTo (i + 1) key kidKey
      · obtain ⟨j, hij, hj, hwalk, hrest⟩ := ih (by omega) (by omega) hsame
        refine ⟨j, by omega, hj, ?_, hrest⟩
        rw [hnext, if_neg, hwalk]
        simp [hcur, (and_leadingMask_eq_iff (by omega)).mpr hsame]
      · refine ⟨i, le_rfl, hi, ?_, hagree, .inr fun hbit => hsame (AgreeTo.succ_iff.mpr ⟨hagree, hbit⟩)⟩
        rw [hnext, if_pos]
        simp [and_leadingMask_eq_iff (show i + 1 ≤ w by omega), hsame]

section Insert

variable {k : BitVec w} {n nn : Nat} {h : TrieHandle w} (val : α)

/-- The new node for the value. -/
def leaf (h : TrieHandle w) (val : α) : TrieNode w α := node (h.key &&& h.mask) h.mask (some val) null null

lemma leaf_sound (hc : Covers k n h nn) (root : Bool) : Sound root (leaf h val) := by
  refine ⟨⟨nn, hc.mask, hc.width, ?_, trivial, trivial, trivial⟩, nofun, trivial, trivial⟩
  rw [← hc.mask, BitVec.and_assoc, BitVec.and_self]

lemma leaf_grown (hc : Covers k n h nn) : Grown null (leaf h val) h val := by
  intro h' x
  rw [leaf, entry_eq_some (leaf_sound val hc false), hc.tidy]
  simp only [entry, reduceCtorEq, or_false, Option.some.injEq, @eq_comm _ val x]

lemma leaf_extends (hc : Covers k n h nn) (hne : n ≠ nn) : Extends k n (leaf h val) :=
  ⟨nn, lt_of_le_of_ne hc.le hne, hc.width, hc.mask, by rw [hc.tidy]; exact hc.agree⟩

variable {val}

/-- A node whose first kid has grown. -/
lemma stands_left {root : Bool} {v : Option α} {l l' r : TrieNode w α}
    (hs : Sound root (node k (leadingMask w n) v l r)) (hn : n ≤ w) (hext : Extends k n l') (hl : Sound false l')
    (hapart : Apart n l' r) (hg : Grown l l' h val) (hnew : entry (node k (leadingMask w n) v l r) h = none) :
    Stands root k n (Function.update (entry (node k (leadingMask w n) v l r)) h (some val))
      (node k (leadingMask w n) v l' r) := by
  have hshape := hs.shape hn
  obtain ⟨-, hfull, -, hr⟩ := id hs
  have hs' : Sound root (node k (leadingMask w n) v l' r) :=
    ⟨⟨n, rfl, hshape.le, hshape.tidy, hext, hshape.right, hapart⟩, hfull, hl, hr⟩
  refine ⟨⟨v, l', r, rfl⟩, hs', Grown.entry_eq (fun h' x => ?_) hnew⟩
  rw [entry_eq_some hs', entry_eq_some hs, hg h' x]
  exact (or_congr_right or_assoc).trans or_left_comm

/-- A node whose second kid has grown. -/
lemma stands_right {root : Bool} {v : Option α} {l r r' : TrieNode w α}
    (hs : Sound root (node k (leadingMask w n) v l r)) (hn : n ≤ w) (hext : Extends k n r') (hr : Sound false r')
    (hne : r' ≠ null) (hapart : Apart n l r') (hg : Grown r r' h val)
    (hnew : entry (node k (leadingMask w n) v l r) h = none) :
    Stands root k n (Function.update (entry (node k (leadingMask w n) v l r)) h (some val))
      (node k (leadingMask w n) v l r') := by
  have hshape := hs.shape hn
  obtain ⟨-, -, hl, -⟩ := id hs
  have hs' : Sound root (node k (leadingMask w n) v l r') :=
    ⟨⟨n, rfl, hshape.le, hshape.tidy, hshape.left, hext, hapart⟩, fun _ _ => hne, hl, hr⟩
  refine ⟨⟨v, l, r', rfl⟩, hs', Grown.entry_eq (fun h' x => ?_) hnew⟩
  rw [entry_eq_some hs', entry_eq_some hs, hg h' x]
  exact (or_congr_right or_left_comm).trans or_left_comm

/-- The first bit of a kid decides on which side it goes. -/
lemma Apart.left_congr {kl kl' ml ml' : BitVec w} {vl vl' : Option α} {ll lr ll' lr' r : TrieNode w α}
    (ha : Apart n (node kl ml vl ll lr) r) (hbit : kl'.getMsbD n = kl.getMsbD n) :
    Apart n (node kl' ml' vl' ll' lr') r := by
  cases r with
  | null => trivial
  | node kr mr vr rl rr => exact fun heq => ha (hbit.symm.trans heq)

lemma Apart.right_congr {kr kr' mr mr' : BitVec w} {vr vr' : Option α} {l rl rr rl' rr' : TrieNode w α}
    (ha : Apart n l (node kr mr vr rl rr)) (hbit : kr'.getMsbD n = kr.getMsbD n) :
    Apart n l (node kr' mr' vr' rl' rr') := by
  cases l with
  | null => exact ha.elim
  | node kl ml vl ll lr => exact fun heq => ha (heq.trans hbit)

variable (val) in
/-- The node that is put between a node and its kid. -/
lemma between_spec {j nk : Nat} {kk : BitVec w} {vk : Option α} {lk rk : TrieNode w α} (hc : Covers k n h nn)
    (hnj : n < j) (hj : j ≤ nn) (hjk : j < nk) (hnk : nk ≤ w) (hagree : AgreeTo j h.key kk)
    (hstop : j = nn ∨ h.key.getMsbD j ≠ kk.getMsbD j) (hkid : Sound false (node kk (leadingMask w nk) vk lk rk)) :
    let t := between h.key (leadingMask w j) h.mask val (node kk (leadingMask w nk) vk lk rk)
    Extends k n t ∧ Sound false t ∧ Grown (node kk (leadingMask w nk) vk lk rk) t h val ∧
      ∃ v l r, t = node (h.key &&& leadingMask w j) (leadingMask w j) v l r := by
  have hjw : j ≤ w := hj.trans hc.width
  have hcut : AgreeTo j (h.key &&& leadingMask w j) h.key := agreeTo_and_leadingMask hjw _
  have hext : ∀ v l r, Extends k n (node (h.key &&& leadingMask w j) (leadingMask w j) v l r : TrieNode w α) :=
    fun _ _ _ => ⟨j, hnj, hjw, rfl, (hcut.mono hnj.le).trans hc.agree⟩
  have hkidext : Extends (h.key &&& leadingMask w j) j (node kk (leadingMask w nk) vk lk rk) :=
    ⟨nk, hjk, hnk, rfl, hagree.symm.trans hcut.symm⟩
  have htidy : h.key &&& leadingMask w j &&& leadingMask w j = h.key &&& leadingMask w j := by
    rw [BitVec.and_assoc, BitVec.and_self]
  simp only [between, hc.mask, leadingMask_inj hjw hc.width]
  by_cases hlast : j = nn
  · subst hlast
    rw [if_pos rfl]
    have hs : Sound false (node (h.key &&& leadingMask w j) (leadingMask w j) (some val)
        (node kk (leadingMask w nk) vk lk rk) null) :=
      ⟨⟨j, rfl, hjw, htidy, hkidext, trivial, trivial⟩, nofun, hkid, trivial⟩
    refine ⟨hext _ _ _, hs, fun h' x => ?_, _, _, _, rfl⟩
    rw [entry_eq_some hs, ← hc.mask, hc.tidy]
    simp only [entry, reduceCtorEq, or_false, Option.some.injEq, @eq_comm _ val x]
  · rw [if_neg hlast, ← hc.mask]
    have hbelow : Covers (h.key &&& leadingMask w j) j h nn := ⟨hj, hc.width, hc.mask, hc.tidy, hcut.symm⟩
    have hapart : Apart j (node kk (leadingMask w nk) vk lk rk) (leaf h val) := by
      intro heq
      rw [hc.tidy] at heq
      exact hstop.resolve_left hlast heq.symm
    have hs : Sound false (node (h.key &&& leadingMask w j) (leadingMask w j) none
        (node kk (leadingMask w nk) vk lk rk) (leaf h val)) :=
      ⟨⟨j, rfl, hjw, htidy, hkidext, leaf_extends val hbelow hlast, hapart⟩, fun _ _ => by simp [leaf], hkid,
        leaf_sound val hbelow false⟩
    refine ⟨hext _ _ _, hs, fun h' x => (entry_eq_some hs).trans ?_, _, _, _, rfl⟩
    rw [leaf_grown val hbelow h' x]
    simp only [entry, reduceCtorEq, and_false, or_false, false_or]
    exact or_comm

/-- Where the walk down a leg stops, for a kid that the new prefix does not go after. -/
lemma walk_spec {kid : TrieNode w α} (hc : Covers k n h nn) (hext : Extends k n kid) (hs : Sound false kid)
    (hnull : kid ≠ null) (hnot : kid.goesAfter h.key h.mask ≠ true) :
    ∃ kk nk vk lk rk j, kid = node kk (leadingMask w nk) vk lk rk ∧ n ≤ j ∧ j ≤ nn ∧ j < nk ∧ nk ≤ w ∧
      walkMask h.key kid.key h.mask (w + 1) (leadingMask w n) = leadingMask w j ∧ AgreeTo j h.key kk ∧
      (j = nn ∨ h.key.getMsbD j ≠ kk.getMsbD j) := by
  cases kid with
  | null => exact absurd rfl hnull
  | node kk mk vk lk rk =>
    obtain ⟨nk, hnk, hkw, rfl, hagree⟩ := hext
    rw [Ne, goesAfter_iff hkw (hs.shape hkw).tidy hc.width hc.mask hc.tidy] at hnot
    have hfuel : nn - n < w + 1 := by
      have := hc.width
      omega
    obtain ⟨j, hnj, hj, hwalk, hto, hstop⟩ := walkMask_spec hc.width hc.le hfuel (hc.agree.trans hagree.symm)
    rw [← hc.mask] at hwalk
    refine ⟨kk, nk, vk, lk, rk, j, rfl, hnj, hj, ?_, hkw, hwalk, hto, hstop⟩
    by_contra hle
    exact hnot ⟨by omega, hc.width, hc.mask, hc.tidy, hto.mono (by omega)⟩

section Node

variable {root : Bool} {v : Option α} {l r : TrieNode w α}

/-- The prefix is that of the node. -/
lemma stands_self (hs : Sound root (node k (leadingMask w n) none l r)) (hn : n ≤ w) (hself : h = ⟨k, leadingMask w n⟩)
    (hnew : entry (node k (leadingMask w n) none l r) h = none) :
    Stands root k n (Function.update (entry (node k (leadingMask w n) none l r)) h (some val))
      (node k (leadingMask w n) (some val) l r) := by
  have hshape := hs.shape hn
  obtain ⟨-, -, hl, hr⟩ := id hs
  have hs' : Sound root (node k (leadingMask w n) (some val) l r) :=
    ⟨⟨n, rfl, hshape⟩, fun _ hv => absurd hv (Option.some_ne_none val), hl, hr⟩
  refine ⟨⟨_, _, _, rfl⟩, hs', Grown.entry_eq (fun h' x => ?_) hnew⟩
  rw [entry_eq_some hs', entry_eq_some hs, ← hself, Option.some.injEq, @eq_comm _ val x]
  simp

/-- The prefix goes down the first leg and leaves it before the kid. -/
lemma stands_left_leg {j nl : Nat} {kl : BitVec w} {vl : Option α} {ll lr : TrieNode w α}
    (hs : Sound root (node k (leadingMask w n) v (node kl (leadingMask w nl) vl ll lr) r)) (hn : n ≤ w)
    (hc : Covers k n h nn) (hnj : n < j) (hj : j ≤ nn) (hjl : j < nl) (hlw : nl ≤ w) (hto : AgreeTo j h.key kl)
    (hstop : j = nn ∨ h.key.getMsbD j ≠ kl.getMsbD j)
    (hnew : entry (node k (leadingMask w n) v (node kl (leadingMask w nl) vl ll lr) r) h = none) :
    Stands root k n
      (Function.update (entry (node k (leadingMask w n) v (node kl (leadingMask w nl) vl ll lr) r)) h (some val))
      (node k (leadingMask w n) v
        (between h.key (leadingMask w j) h.mask val (node kl (leadingMask w nl) vl ll lr)) r) := by
  obtain ⟨-, -, hl, -⟩ := id hs
  obtain ⟨hext, hsound, hgrown, v', l', r', ht⟩ := between_spec val hc hnj hj hjl hlw hto hstop hl
  rw [ht] at hext hsound hgrown ⊢
  have hkey := agreeTo_and_leadingMask (hj.trans hc.width) h.key n hnj
  exact stands_left hs hn hext hsound ((hs.shape hn).apart.left_congr (hkey.trans (hto n hnj))) hgrown hnew

/-- The prefix goes down the second leg and leaves it before the kid. -/
lemma stands_right_leg {j nr : Nat} {kr : BitVec w} {vr : Option α} {rl rr : TrieNode w α}
    (hs : Sound root (node k (leadingMask w n) v l (node kr (leadingMask w nr) vr rl rr))) (hn : n ≤ w)
    (hc : Covers k n h nn) (hnj : n < j) (hj : j ≤ nn) (hjr : j < nr) (hrw : nr ≤ w) (hto : AgreeTo j h.key kr)
    (hstop : j = nn ∨ h.key.getMsbD j ≠ kr.getMsbD j)
    (hnew : entry (node k (leadingMask w n) v l (node kr (leadingMask w nr) vr rl rr)) h = none) :
    Stands root k n
      (Function.update (entry (node k (leadingMask w n) v l (node kr (leadingMask w nr) vr rl rr))) h (some val))
      (node k (leadingMask w n) v l
        (between h.key (leadingMask w j) h.mask val (node kr (leadingMask w nr) vr rl rr))) := by
  obtain ⟨-, -, -, hr⟩ := id hs
  obtain ⟨hext, hsound, hgrown, v', l', r', ht⟩ := between_spec val hc hnj hj hjr hrw hto hstop hr
  rw [ht] at hext hsound hgrown ⊢
  have hkey := agreeTo_and_leadingMask (hj.trans hc.width) h.key n hnj
  exact stands_right hs hn hext hsound node_ne_null ((hs.shape hn).apart.right_congr (hkey.trans (hto n hnj))) hgrown
    hnew

variable (val)

/-- The kids are not on the way to the prefix, and the prefix is not that of the node. -/
lemma insertAt_here (hs : Sound root (node k (leadingMask w n) v l r)) (hn : n ≤ w) (hc : Covers k n h nn)
    (hlen : n ≠ nn) (hal : l.goesAfter h.key h.mask ≠ true) (har : r.goesAfter h.key h.mask ≠ true)
    (hnew : entry (node k (leadingMask w n) v l r) h = none) :
    ∃ t', (node k (leadingMask w n) v l r).insertAt h.key h.mask val = .ok t' ∧
      Stands root k n (Function.update (entry (node k (leadingMask w n) v l r)) h (some val)) t' := by
  have hshape := hs.shape hn
  obtain ⟨-, -, hl, hr⟩ := id hs
  have hmask : ∀ j, j ≤ w → j ≠ n → leadingMask w j ≠ leadingMask w n := fun j hj hne heq =>
    hne ((leadingMask_inj hj hn).mp heq)
  rw [insertAt, if_neg hal, if_neg har, if_neg (hc.mask ▸ (hmask nn hc.width hlen.symm).symm)]
  by_cases hnl : l = null
  · subst hnl
    cases r with
    | node _ _ _ _ _ => exact hshape.apart.elim
    | null =>
      exact ⟨_, rfl, stands_left hs hn (leaf_extends val hc hlen) (leaf_sound val hc false) trivial
        (leaf_grown val hc) hnew⟩
  obtain ⟨kl, nl, vl, ll, lr, j, rfl, hnj, hj, hjl, hlw, hwalk, hto, hstop⟩ := walk_spec hc hshape.left hl hnl hal
  rw [if_neg (by simp [isNull]), hwalk]
  by_cases hleg : j = n
  · subst hleg
    -- not the first leg: the next bit of the prefix is the other one
    have hbit : h.key.getMsbD j ≠ kl.getMsbD j := hstop.resolve_left hlen
    simp only [ne_eq, not_true_eq_false, if_false]
    by_cases hnr : r = null
    · subst hnr
      refine ⟨_, rfl, stands_right hs hn (leaf_extends val hc hlen) (leaf_sound val hc false) node_ne_null ?_
        (leaf_grown val hc) hnew⟩
      intro heq
      rw [hc.tidy] at heq
      exact hbit heq.symm
    obtain ⟨kr, nr, vr, rl, rr, j', rfl, hnj', hj', hjr, hrw, hwalk', hto', hstop'⟩ :=
      walk_spec hc hshape.right hr hnr har
    have hbitr : h.key.getMsbD j = kr.getMsbD j := by
      have hne : kl.getMsbD j ≠ kr.getMsbD j := hshape.apart
      exact (Bool.eq_not_of_ne hbit).trans (Bool.eq_not_of_ne hne.symm).symm
    have hlt : j < j' := by
      refine lt_of_le_of_ne hnj' fun heq => ?_
      subst heq
      exact hstop'.resolve_left hlen hbitr
    rw [if_neg (by simp [isNull]), hwalk', if_pos (hmask j' (hj'.trans hc.width) hlt.ne')]
    exact ⟨_, rfl, stands_right_leg hs hn hc hlt hj' hjr hrw hto' hstop' hnew⟩
  · rw [if_pos (hmask j (hj.trans hc.width) hleg)]
    exact ⟨_, rfl, stands_left_leg hs hn hc (lt_of_le_of_ne hnj (Ne.symm hleg)) hj hjl hlw hto hstop hnew⟩

/-- Insertion adds the prefix to the map. -/
lemma insertAt_spec (hs : Sound root (node k (leadingMask w n) v l r)) (hn : n ≤ w) (hc : Covers k n h nn)
    (hnew : entry (node k (leadingMask w n) v l r) h = none) :
    ∃ t', (node k (leadingMask w n) v l r).insertAt h.key h.mask val = .ok t' ∧
      Stands root k n (Function.update (entry (node k (leadingMask w n) v l r)) h (some val)) t' := by
  generalize ht : node k (leadingMask w n) v l r = t at hs hnew ⊢
  induction t generalizing root k n v l r with
  | null => cases ht
  | node k m v l r ihl ihr =>
    cases ht
    have hshape := hs.shape hn
    obtain ⟨-, -, hl, hr⟩ := id hs
    have hnone : ∀ x, ¬(h = ⟨k, leadingMask w n⟩ ∧ v = some x ∨ entry l h = some x ∨ entry r h = some x) := by
      intro x hx
      rw [(entry_eq_some hs).mpr hx] at hnew
      cases hnew
    have hnewl : entry l h = none := Option.eq_none_iff_forall_ne_some.mpr fun x hx => hnone x (.inr (.inl hx))
    have hnewr : entry r h = none := Option.eq_none_iff_forall_ne_some.mpr fun x hx => hnone x (.inr (.inr hx))
    by_cases hal : l.goesAfter h.key h.mask = true
    · cases l with
      | null => cases hal
      | node kl ml vl ll lr =>
        obtain ⟨nl, hnl, hlw, rfl, hagree⟩ := id hshape.left
        have hcl := (goesAfter_iff hlw (hl.shape hlw).tidy hc.width hc.mask hc.tidy).mp hal
        obtain ⟨t', hrun, hst⟩ := ihl hlw hcl rfl hl hnewl
        obtain ⟨v', l', r', rfl⟩ := hst.place
        rw [insertAt, if_pos hal, hrun]
        exact ⟨_, rfl, stands_left hs hn ⟨nl, hnl, hlw, rfl, hagree⟩ hst.sound (hshape.apart.left_congr rfl)
          (hst.grown hnewl) hnew⟩
    by_cases har : r.goesAfter h.key h.mask = true
    · cases r with
      | null => cases har
      | node kr mr vr rl rr =>
        obtain ⟨nr, hnr, hrw, rfl, hagree⟩ := id hshape.right
        have hcr := (goesAfter_iff hrw (hr.shape hrw).tidy hc.width hc.mask hc.tidy).mp har
        obtain ⟨t', hrun, hst⟩ := ihr hrw hcr rfl hr hnewr
        obtain ⟨v', l', r', rfl⟩ := hst.place
        rw [insertAt, if_neg hal, if_pos har, hrun]
        exact ⟨_, rfl, stands_right hs hn ⟨nr, hnr, hrw, rfl, hagree⟩ hst.sound node_ne_null
          (hshape.apart.right_congr rfl) (hst.grown hnewr) hnew⟩
    by_cases hlen : n = nn
    · -- the node is there already, without a value
      have hkey : h.key = k := by
        rw [← hc.tidy, ← hshape.tidy, hc.mask, ← hlen, and_leadingMask_eq_iff hn]
        exact hc.agree
      have hself : h = ⟨k, leadingMask w n⟩ := by
        rw [← hkey, hlen, ← hc.mask]
      obtain rfl : v = none := Option.eq_none_iff_forall_ne_some.mpr fun x hx => hnone x (.inl ⟨hself, hx⟩)
      refine ⟨_, ?_, stands_self hs hn hself hnew⟩
      rw [insertAt, if_neg hal, if_neg har, hc.mask, ← hlen, if_pos rfl]
      rfl
    · exact insertAt_here val hs hn hc hlen hal har hnew

end Node

end Insert

/-! ### Removal -/

/-- What stands in the place of a node for the `n` leading bits of `k` after a removal, where the map is `E`: the
node, or what was below it. -/
structure Removed (root : Bool) (k : BitVec w) (n : Nat) (E : TrieHandle w → Option α) (x : TrieNode w α × Bool) :
    Prop where
  stay : x.2 = false → ∃ v l r, x.1 = node k (leadingMask w n) v l r
  gone : x.2 = true → root = false ∧ Extends k n x.1
  sound : Sound (root && !x.2) x.1
  entry : entry x.1 = E

/-- The parts of a node from which a kid may have been taken out. -/
structure Parts (k : BitVec w) (n : Nat) (v : Option α) (l r : TrieNode w α) (E : TrieHandle w → Option α) :
    Prop where
  le : n ≤ w
  tidy : k &&& leadingMask w n = k
  left : Extends k n l
  right : Extends k n r
  apart : l ≠ null → Apart n l r
  soundLeft : Sound false l
  soundRight : Sound false r
  entry : ∀ h x, E h = some x ↔ h = ⟨k, leadingMask w n⟩ ∧ v = some x ∨ entry l h = some x ∨ entry r h = some x

section Remove

variable {root : Bool} {k : BitVec w} {n : Nat} {v : Option α} {l r : TrieNode w α} {E : TrieHandle w → Option α}

/-- The node stays if it has its value or both its kids. -/
lemma Parts.stay (hp : Parts k n v l r E) (hapart : Apart n l r) (hfull : root = false → v = none → r ≠ null) :
    Removed root k n E (node k (leadingMask w n) v l r, false) := by
  have hs : Sound root (node k (leadingMask w n) v l r) :=
    ⟨⟨n, rfl, hp.le, hp.tidy, hp.left, hp.right, hapart⟩, hfull, hp.soundLeft, hp.soundRight⟩
  refine ⟨fun _ => ⟨_, _, _, rfl⟩, nofun, by simpa using hs, funext fun h => Option.ext fun x => ?_⟩
  rw [hp.entry h x, entry_eq_some hs]

/-- A node with one kid, or none. -/
lemma Parts.single (hp : Parts k n v l null E) :
    Removed root k n E (if v.isNone && !root then (l, true) else (node k (leadingMask w n) v l null, false)) := by
  split
  · rename_i hout
    simp only [Bool.and_eq_true, Option.isNone_iff_eq_none, Bool.not_eq_true'] at hout
    obtain ⟨rfl, rfl⟩ := hout
    refine ⟨nofun, fun _ => ⟨rfl, hp.left⟩, hp.soundLeft, funext fun h => Option.ext fun x => ?_⟩
    rw [hp.entry h x]
    simp [TrieNode.entry]
  · rename_i hin
    exact hp.stay trivial fun hroot hv => by simp [hroot, hv] at hin

lemma relink_spec (hp : Parts k n v l r E) : Removed root k n E (relink root k (leadingMask w n) v l r) := by
  cases r with
  | null => simpa [relink, isNull] using hp.single
  | node kr mr vr rl rr =>
    cases l with
    | null =>
      have hswap : Parts k n v (node kr mr vr rl rr) null E :=
        { hp with
          left := hp.right
          right := trivial
          apart := fun _ => trivial
          soundLeft := hp.soundRight
          soundRight := trivial
          entry := fun h x => (hp.entry h x).trans (by simp [TrieNode.entry]) }
      simpa [relink, isNull] using hswap.single
    | node kl ml vl ll lr =>
      simp only [relink, isNull, Bool.not_false, Bool.and_false, Bool.false_and, Bool.false_eq_true, if_false]
      exact hp.stay (hp.apart node_ne_null) fun _ _ => node_ne_null

/-- What is left of a kid is for the same bits. -/
lemma Removed.kid {x : TrieNode w α × Bool} (hx : Removed root k n E x) (hn : n ≤ w) :
    x.1 = null ∨ ∃ k' n' v' l' r', x.1 = node k' (leadingMask w n') v' l' r' ∧ n ≤ n' ∧ n' ≤ w ∧ AgreeTo n k' k := by
  cases hgone : x.2 with
  | false =>
    obtain ⟨v', l', r', hnode⟩ := hx.stay hgone
    exact .inr ⟨k, n, v', l', r', hnode, le_rfl, hn, .refl _ _⟩
  | true =>
    have hext := (hx.gone hgone).2
    generalize x.1 = t at hext ⊢
    cases t with
    | null => exact .inl rfl
    | node k' m' v' l' r' =>
      obtain ⟨n', hlt, hle, rfl, hagree⟩ := hext
      exact .inr ⟨k', n', v', l', r', rfl, hlt.le, hle, hagree⟩

variable {h : TrieHandle w} {y : α} {k' : BitVec w} {n' : Nat} {v' : Option α} {l' r' : TrieNode w α}
  {x : TrieNode w α × Bool}

/-- A removal below the first kid. -/
lemma parts_left (hs : Sound root (node k (leadingMask w n) v (node k' (leadingMask w n') v' l' r') r)) (hn : n ≤ w)
    (hn' : n' ≤ w) (hlt : n < n') (hy : entry (node k' (leadingMask w n') v' l' r') h = some y)
    (hx : Removed false k' n' (Function.update (entry (node k' (leadingMask w n') v' l' r')) h none) x) :
    Parts k n v x.1 r
      (Function.update (entry (node k (leadingMask w n) v (node k' (leadingMask w n') v' l' r') r)) h none) := by
  have hshape := hs.shape hn
  obtain ⟨-, -, hl, hr⟩ := id hs
  have hagree : AgreeTo n k' k := by
    obtain ⟨_, -, -, -, hagree⟩ := hshape.left
    exact hagree
  refine ⟨hn, hshape.tidy, ?_, hshape.right, fun hne => ?_, by simpa using hx.sound, hr, fun h' z => ?_⟩
  · rcases hx.kid hn' with hnull | ⟨k'', n'', v'', l'', r'', hnode, hle, hw, hto⟩
    · rw [hnull]
      trivial
    · rw [hnode]
      exact ⟨n'', by omega, hw, rfl, (hto.mono hlt.le).trans hagree⟩
  · obtain ⟨k'', n'', v'', l'', r'', hnode, -, -, hto⟩ := (hx.kid hn').resolve_left hne
    rw [hnode]
    exact hshape.apart.left_congr (hto n hlt)
  · rw [hx.entry, Function.update_apply, Function.update_apply]
    split
    · rename_i heq
      subst heq
      have hself := fun heq : h' = ⟨k, leadingMask w n⟩ => hshape.left.not_self hn hl hy (by rw [heq])
      have hother := fun hz : entry r h' = some z => hshape.not_both hl hr hy hz
      simp only [reduceCtorEq, false_or, false_iff, not_or, not_and]
      exact ⟨fun heq => (hself heq).elim, hother⟩
    · exact entry_eq_some hs

/-- A removal below the second kid. -/
lemma parts_right (hs : Sound root (node k (leadingMask w n) v l (node k' (leadingMask w n') v' l' r'))) (hn : n ≤ w)
    (hn' : n' ≤ w) (hlt : n < n') (hy : entry (node k' (leadingMask w n') v' l' r') h = some y)
    (hx : Removed false k' n' (Function.update (entry (node k' (leadingMask w n') v' l' r')) h none) x) :
    Parts k n v l x.1
      (Function.update (entry (node k (leadingMask w n) v l (node k' (leadingMask w n') v' l' r'))) h none) := by
  have hshape := hs.shape hn
  obtain ⟨-, -, hl, hr⟩ := id hs
  have hagree : AgreeTo n k' k := by
    obtain ⟨_, -, -, -, hagree⟩ := hshape.right
    exact hagree
  refine ⟨hn, hshape.tidy, hshape.left, ?_, fun _ => ?_, hl, by simpa using hx.sound, fun h' z => ?_⟩
  · rcases hx.kid hn' with hnull | ⟨k'', n'', v'', l'', r'', hnode, hle, hw, hto⟩
    · rw [hnull]
      trivial
    · rw [hnode]
      exact ⟨n'', by omega, hw, rfl, (hto.mono hlt.le).trans hagree⟩
  · rcases hx.kid hn' with hnull | ⟨k'', n'', v'', l'', r'', hnode, -, -, hto⟩
    · rw [hnull]
      cases l <;> trivial
    · rw [hnode]
      exact hshape.apart.right_congr (hto n hlt)
  · rw [hx.entry, Function.update_apply, Function.update_apply]
    split
    · rename_i heq
      subst heq
      have hself := fun heq : h' = ⟨k, leadingMask w n⟩ => hshape.right.not_self hn hr hy (by rw [heq])
      have hother := fun hz : entry l h' = some z => hshape.not_both hl hr hz hy
      simp only [reduceCtorEq, or_false, false_iff, not_or, not_and]
      exact ⟨fun heq => (hself heq).elim, hother⟩
    · exact entry_eq_some hs

/-- Removal takes the prefix out of the map. -/
lemma removeAt_spec (hs : Sound root (node k (leadingMask w n) v l r)) (hn : n ≤ w) (hroot : root = true → v = none)
    (hy : entry (node k (leadingMask w n) v l r) h = some y) :
    ∃ x, (node k (leadingMask w n) v l r).removeAt root h = .ok x ∧
      Removed root k n (Function.update (entry (node k (leadingMask w n) v l r)) h none) x := by
  generalize ht : node k (leadingMask w n) v l r = t at hs hy ⊢
  induction t generalizing root k n v l r with
  | null => cases ht
  | node k m v l r ihl ihr =>
    cases ht
    have hshape := hs.shape hn
    obtain ⟨-, hfull, hl, hr⟩ := id hs
    rw [removeAt]
    rcases (entry_eq_some hs).mp hy with ⟨rfl, rfl⟩ | hyl | hyr
    · have hnotroot : root = false := by
        cases root with
        | false => rfl
        | true => cases hroot rfl
      subst hnotroot
      have hnone : ∀ z : α, entry l ⟨k, leadingMask w n⟩ ≠ some z ∧ entry r ⟨k, leadingMask w n⟩ ≠ some z :=
        fun z => ⟨fun hz => hshape.left.not_self hn hl hz rfl, fun hz => hshape.right.not_self hn hr hz rfl⟩
      have hp : Parts k n none l r
          (Function.update (entry (node k (leadingMask w n) (some y) l r)) ⟨k, leadingMask w n⟩ none) := by
        refine ⟨hn, hshape.tidy, hshape.left, hshape.right, fun _ => hshape.apart, hl, hr, fun h' z => ?_⟩
        rw [Function.update_apply]
        split
        · rename_i heq
          simp [heq, hnone z]
        · rename_i hne
          rw [entry_eq_some hs]
          simp [hne]
      rw [if_pos ⟨rfl, rfl⟩]
      cases r with
      | null => exact ⟨(l, true), rfl, hp.single⟩
      | node kr mr vr rl rr =>
        exact ⟨_, rfl, hp.stay hshape.apart fun _ _ => nofun⟩
    · have hself := hshape.left.not_self hn hl hyl
      obtain ⟨kl, nl, vl, ll, lr, j, rfl, hlt, hle, hc⟩ := kid_of_entry hshape.left hl hyl
      have hgo : (node kl (leadingMask w nl) vl ll lr).goesAfter h.key h.mask = true :=
        (goesAfter_iff hle (hl.shape hle).tidy hc.width hc.mask hc.tidy).mpr hc
      obtain ⟨⟨t', gone⟩, hrun, hx⟩ := ihl hle (by simp) rfl hl hyl
      have hp := parts_left hs hn hle hlt hyl hx
      rw [if_neg fun h => hself h.2, if_pos hgo, hrun, ok_bind]
      cases gone with
      | true => exact ⟨_, rfl, relink_spec hp⟩
      | false =>
        obtain ⟨v', l', r', rfl⟩ := hx.stay rfl
        exact ⟨_, rfl, hp.stay (hp.apart nofun) hfull⟩
    · have hself := hshape.right.not_self hn hr hyr
      obtain ⟨kr, nr, vr, rl, rr, j, rfl, hlt, hle, hc⟩ := kid_of_entry hshape.right hr hyr
      have hgo : (node kr (leadingMask w nr) vr rl rr).goesAfter h.key h.mask = true :=
        (goesAfter_iff hle (hr.shape hle).tidy hc.width hc.mask hc.tidy).mpr hc
      have hnot : l.goesAfter h.key h.mask ≠ true := by
        intro hgol
        cases l with
        | null => cases hgol
        | node kl ml vl ll lr =>
          obtain ⟨nl, hnl, hlw, rfl, -⟩ := hshape.left
          have hcl := (goesAfter_iff hlw (hl.shape hlw).tidy hc.width hc.mask hc.tidy).mp hgol
          exact hshape.apart ((hcl.agree n hnl).symm.trans (hc.agree n hlt))
      obtain ⟨⟨t', gone⟩, hrun, hx⟩ := ihr hle (by simp) rfl hr hyr
      have hp := parts_right hs hn hle hlt hyr hx
      rw [if_neg fun h => hself h.2, if_neg hnot, if_pos hgo, hrun, ok_bind]
      cases gone with
      | true => exact ⟨_, rfl, relink_spec hp⟩
      | false =>
        obtain ⟨v', l', r', rfl⟩ := hx.stay rfl
        refine ⟨_, rfl, hp.stay ?_ fun _ _ => nofun⟩
        exact hshape.apart.right_congr rfl

end Remove

/-! ### Whole tries -/

/-- The trie is the map `E`, which has no value for the empty prefix. -/
structure Represents (t : TrieNode w α) (E : TrieHandle w → Option α) : Prop where
  stands : Stands true 0 0 E t
  noRoot : E ⟨0, 0⟩ = none

lemma represents_head : Represents (head : TrieNode w α) fun _ => none where
  stands := ⟨⟨none, null, null, by rw [leadingMask_zero]; rfl⟩, sound_head, by funext h; simp [head, entry]⟩
  noRoot := rfl

/-- The handle of a prefix. -/
def handleOf (key : BitVec w) (width : Nat) : TrieHandle w := ⟨key &&& leadingMask w width, leadingMask w width⟩

lemma widthMask_eq {width : Nat} (hwidth : width ≤ w) : (widthMask width : BitVec w) = leadingMask w width := by
  rw [widthMask]
  split
  · rfl
  · rw [show width = w by omega, leadingMask_self]

variable {t : TrieNode w α} {E : TrieHandle w → Option α}

lemma Represents.insert (hr : Represents t E) {key : BitVec w} {width : Nat} (hpos : 0 < width) (hwidth : width ≤ w)
    (hnew : E (handleOf key width) = none) (val : α) :
    ∃ t', t.insert key width val = .ok (t', handleOf key width) ∧
      Represents t' (Function.update E (handleOf key width) (some val)) := by
  obtain ⟨v, l, r, rfl⟩ := hr.stands.place
  have hc : Covers 0 0 (handleOf key width) width :=
    ⟨Nat.zero_le _, hwidth, rfl, by simp [handleOf, BitVec.and_assoc], .zero _ _⟩
  rw [← hr.stands.entry] at hnew
  obtain ⟨t', hrun, hst⟩ := insertAt_spec val hr.stands.sound (Nat.zero_le _) hc hnew
  rw [hr.stands.entry] at hst
  refine ⟨t', ?_, hst, ?_⟩
  · simp only [handleOf] at hrun
    simp only [ MimdramLean.TrieNode.insert, widthMask_eq hwidth, hrun, ok_bind, handleOf]
  · rw [Function.update_of_ne, hr.noRoot]
    intro heq
    have hmask : leadingMask w 0 = leadingMask w width := leadingMask_zero.trans (congrArg TrieHandle.mask heq)
    rw [leadingMask_inj (Nat.zero_le _) hwidth] at hmask
    omega

lemma Represents.remove (hr : Represents t E) {h : TrieHandle w} (hentry : E h ≠ none) :
    ∃ t', t.remove h = .ok t' ∧ Represents t' (Function.update E h none) := by
  obtain ⟨v, l, r, rfl⟩ := hr.stands.place
  obtain ⟨y, hy⟩ := Option.ne_none_iff_exists'.mp hentry
  rw [← hr.stands.entry] at hy
  have hroot : v = none := by
    have hnone := hr.noRoot
    rw [← hr.stands.entry] at hnone
    simpa [entry] using hnone
  obtain ⟨x, hrun, hx⟩ := removeAt_spec hr.stands.sound (Nat.zero_le _) (fun _ => hroot) hy
  rw [hr.stands.entry] at hx
  have hstay : x.2 = false := by
    cases hgone : x.2 with
    | false => rfl
    | true => cases (hx.gone hgone).1
  refine ⟨x.1, ?_, ⟨hx.stay hstay, by simpa [hstay] using hx.sound, hx.entry⟩, ?_⟩
  · simp only [ MimdramLean.TrieNode.remove, hrun, ok_bind]
  · rw [Function.update_apply]
    split
    · rfl
    · exact hr.noRoot

lemma Represents.lookupHandle (hr : Represents t E) (key : BitVec w) : Answers E key (t.lookupHandle key) := by
  obtain ⟨v, l, r, rfl⟩ := hr.stands.place
  rw [← hr.stands.entry]
  exact lookupHandle_answers hr.stands.sound (by simp [matchesKey])

/-- There is one right answer. -/
lemma Answers.unique {key : BitVec w} {a b : Option (TrieHandle w × α)} (ha : Answers E key a)
    (hb : Answers E key b) : a = b := by
  cases a with
  | none =>
    cases b with
    | none => rfl
    | some q =>
      have hnone := ha q.1 hb.2.1
      rw [hb.1] at hnone
      cases hnone
  | some p =>
    cases b with
    | none =>
      have hnone := hb p.1 ha.2.1
      rw [ha.1] at hnone
      cases hnone
    | some q =>
      obtain ⟨⟨k, m⟩, x⟩ := p
      obtain ⟨⟨k', m'⟩, y⟩ := q
      obtain ⟨hx, hm, hshort⟩ := ha
      obtain ⟨hy, hm', hshort'⟩ := hb
      have hmask : m = m' :=
        calc
          m = m &&& m' := (hshort _ hm' (by rw [hy]; nofun)).symm
          _ = m' &&& m := BitVec.and_comm _ _
          _ = m' := hshort' _ hm (by rw [hx]; nofun)
      subst hmask
      obtain rfl : k = k' := hm.symm.trans hm'
      rw [hx] at hy
      cases hy
      rfl

/-! ### Runs -/

/-- A call on the map: a prefix is inserted if it has no value, and one with a value is removed. -/
inductive MapOp (E : TrieHandle w → Option α) : TrieOp w α → Option α → (TrieHandle w → Option α) → Prop
  | insert {key : BitVec w} {width : Nat} {val : α} : 0 < width → width ≤ w → E (handleOf key width) = none →
    MapOp E (.insert key width val) none (Function.update E (handleOf key width) (some val))
  | lookup {key : BitVec w} {a : Option (TrieHandle w × α)} : Answers E key a →
    MapOp E (.lookup key) (a.map Prod.snd) E
  | remove {h : TrieHandle w} : E h ≠ none → MapOp E (.remove h) none (Function.update E h none)
  | removeFound {key : BitVec w} {h : TrieHandle w} {x : α} : Answers E key (some (h, x)) →
    MapOp E (.removeKey key) none (Function.update E h none)
  | removeMissing {key : BitVec w} : Answers E key none → MapOp E (.removeKey key) none E

lemma step_follows {op : TrieOp w α} {o : Option α} {E' : TrieHandle w → Option α} (hr : Represents t E)
    (hop : MapOp E op o E') : ∃ t', t.step op = .ok (o, t') ∧ Represents t' E' := by
  cases hop with
  | @insert key width val hpos hwidth hnew =>
    obtain ⟨t', hrun, hr'⟩ := hr.insert hpos hwidth hnew val
    exact ⟨t', by simp only [ MimdramLean.TrieNode.step, hrun, ok_bind], hr'⟩
  | @lookup key a ha =>
    rw [ha.unique (hr.lookupHandle key)]
    exact ⟨t, rfl, hr⟩
  | @remove h hentry =>
    obtain ⟨t', hrun, hr'⟩ := hr.remove hentry
    exact ⟨t', by simp only [ MimdramLean.TrieNode.step, hrun, ok_bind], hr'⟩
  | @removeFound key h x ha =>
    obtain ⟨t', hrun, hr'⟩ := hr.remove (h := h) (by rw [ha.1]; nofun)
    have hlook := (hr.lookupHandle key).unique ha
    exact ⟨t', by simp only [ MimdramLean.TrieNode.step, MimdramLean.TrieNode.removeKey, hlook, hrun, ok_bind], hr'⟩
  | @removeMissing key ha =>
    have hlook := (hr.lookupHandle key).unique ha
    exact ⟨t, by simp only [ MimdramLean.TrieNode.step, MimdramLean.TrieNode.removeKey, hlook, ok_bind], hr⟩

/-- A trie does what the map of its prefixes does, along every sequence of calls: no assertion fails, each
lookup returns the value of the shortest prefix of the key, and the trie ends up as the map. -/
theorem trie_follows_map {ops : List (TrieOp w α)} {os : List (Option α)} {E' : TrieHandle w → Option α}
    (hrun : SpecRun MapOp (fun _ => none) ops os E') :
    ∃ t, runAnswers MimdramLean.TrieNode.step head ops = .ok (os, t) ∧ Represents t E' :=
  hrun.follow MimdramLean.TrieNode.step (fun E t => Represents t E) (fun _ _ _ _ _ hr hop => step_follows hr hop)
    represents_head

/-- Two prefixes of three bits that part at the last one, and then their first bit as a prefix of its own. -/
def threePrefixes : TrieHandle 4 → Option Nat :=
  Function.update (Function.update (Function.update (fun _ => none) (handleOf 0b1000 3) (some 5)) (handleOf 0b1010 3)
    (some 6)) (handleOf 0b1000 1) (some 7)

theorem trie_follows_map_threePrefixes :
    ∃ t, runAnswers MimdramLean.TrieNode.step (head : TrieNode 4 Nat)
      [.insert 0b1000 3 5, .insert 0b1010 3 6, .insert 0b1000 1 7, .lookup 0b1011, .lookup 0b0010, .removeKey 0b1111,
        .lookup 0b1011] = .ok ([none, none, none, some 7, none, none, some 6], t) ∧
        Represents t (Function.update threePrefixes (handleOf 0b1000 1) none) := by
  have hstored : ∀ h, threePrefixes h ≠ none →
      h = handleOf 0b1000 1 ∨ h = handleOf 0b1010 3 ∨ h = handleOf 0b1000 3 := by
    intro h hentry
    by_contra hother
    push Not at hother
    refine hentry ?_
    rw [threePrefixes, Function.update_of_ne hother.1, Function.update_of_ne hother.2.1,
      Function.update_of_ne hother.2.2]
  have hshortest : ∀ key, Matches (handleOf 0b1000#4 1) key →
      Answers threePrefixes key (some (handleOf 0b1000 1, 7)) := by
    refine fun key hmatch => ⟨Function.update_self .., hmatch, fun h _ hentry => ?_⟩
    rcases hstored h hentry with rfl | rfl | rfl <;> decide
  have hmiss : Answers threePrefixes 0b0010 none := by
    intro h hmatch
    by_contra hentry
    unfold Matches at hmatch
    rcases hstored h hentry with rfl | rfl | rfl <;> exact absurd hmatch (by decide)
  have hlonger : Answers (Function.update threePrefixes (handleOf 0b1000 1) none) 0b1011
      (some (handleOf 0b1010 3, 6)) := by
    refine ⟨by decide, rfl, fun h hmatch hentry => ?_⟩
    by_cases hremoved : h = handleOf 0b1000 1
    · exact absurd (by rw [hremoved, Function.update_self]) hentry
    · rw [Function.update_of_ne hremoved] at hentry
      unfold Matches at hmatch
      rcases hstored h hentry with rfl | rfl | rfl
      · exact absurd rfl hremoved
      · rfl
      · exact absurd hmatch (by decide)
  exact trie_follows_map <| .cons (.insert (by decide) (by decide) rfl) <|
    .cons (.insert (by decide) (by decide) (by decide)) <| .cons (.insert (by decide) (by decide) (by decide)) <|
    .cons (.lookup (hshortest 0b1011 rfl)) <| .cons (.lookup hmiss) <| .cons (.removeFound (hshortest 0b1111 rfl)) <|
    .cons (.lookup hlonger) (.nil _)

end TrieNode

end MimdramLean.Proofs
