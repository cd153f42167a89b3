import TokioKcp.Fec.Packet
import TokioKcp.Lib.LinearCode

/-! The codec of the `reed_solomon_erasure` crate at its two smallest shard counts: one data
and one parity shard, where parity repeats the data, and two data and one parity shard, where
parity is `3 * a + 2 * b` over the field with 256 elements. -/

namespace TokioKcp.Fec
set_option autoImplicit true

open ErasureCode

/-- Multiplication by two modulo the polynomial `0x11d`. -/
def gfDouble (x : UInt8) : UInt8 := (x <<< 1) ^^^ (if x < 128 then 0 else 0x1d)

def gfHalve (y : UInt8) : UInt8 :=
  if y % 2 = 0 then y >>> 1 else ((y ^^^ 0x1d) >>> 1) ||| 0x80

def gfTriple (x : UInt8) : UInt8 := gfDouble x ^^^ x

/-- Multiplication by `0xf4`, the inverse of three. -/
def gfThird (y : UInt8) : UInt8 :=
  let y₂ := gfDouble (gfDouble y)
  let y₄ := gfDouble (gfDouble y₂)
  let y₅ := gfDouble y₄
  let y₆ := gfDouble y₅
  y₂ ^^^ y₄ ^^^ y₅ ^^^ y₆ ^^^ gfDouble y₆

theorem gfHalve_gfDouble (x : UInt8) : gfHalve (gfDouble x) = x := by
  have h : ∀ x : Fin 256, gfHalve (gfDouble (UInt8.ofFin x)) = UInt8.ofFin x := by
    decide +kernel
  exact h x.toFin

theorem gfThird_gfTriple (x : UInt8) : gfThird (gfTriple x) = x := by
  have h : ∀ x : Fin 256, gfThird (gfTriple (UInt8.ofFin x)) = UInt8.ofFin x := by
    decide +kernel
  exact h x.toFin

theorem gfDouble_gfHalve (y : UInt8) : gfDouble (gfHalve y) = y := by
  have h : ∀ y : Fin 256, gfDouble (gfHalve (UInt8.ofFin y)) = UInt8.ofFin y := by
    decide +kernel
  exact h y.toFin

theorem gfTriple_gfThird (y : UInt8) : gfTriple (gfThird y) = y := by
  have h : ∀ y : Fin 256, gfTriple (gfThird (UInt8.ofFin y)) = UInt8.ofFin y := by
    decide +kernel
  exact h y.toFin

theorem gfDouble_xor (x y : UInt8) : gfDouble (x ^^^ y) = gfDouble x ^^^ gfDouble y := by
  -- the top bit decides whether the polynomial is added
  have hbit (z : UInt8) : z < 128 ↔ z.toNat.testBit 7 = false := by
    have hz := z.toNat_lt
    have h128 : (128 : UInt8).toNat = 128 := rfl
    rw [UInt8.lt_iff_toNat_lt, Nat.testBit_eq_decide_div_mod_eq, decide_eq_false_iff_not, h128]
    omega
  have hcarry : (if x ^^^ y < 128 then (0 : UInt8) else 0x1d) =
      (if x < 128 then 0 else 0x1d) ^^^ (if y < 128 then 0 else 0x1d) := by
    simp only [hbit, UInt8.toNat_xor, Nat.testBit_xor]
    cases x.toNat.testBit 7 <;> cases y.toNat.testBit 7 <;> rfl
  rw [gfDouble, gfDouble, gfDouble, hcarry, UInt8.shiftLeft_xor]
  ac_rfl

theorem gfTriple_xor (x y : UInt8) : gfTriple (x ^^^ y) = gfTriple x ^^^ gfTriple y := by
  rw [gfTriple, gfTriple, gfTriple, gfDouble_xor]
  ac_rfl

def parityOf (a b : Bytes) : Bytes := List.zipWith (fun x y => gfTriple x ^^^ gfDouble y) a b

def firstOf (b parity : Bytes) : Bytes :=
  List.zipWith (fun y q => gfThird (q ^^^ gfDouble y)) b parity

def secondOf (a parity : Bytes) : Bytes :=
  List.zipWith (fun x q => gfHalve (q ^^^ gfTriple x)) a parity

def reedSolomon21 : ReedSolomon where
  encode
    | [a, b, parity] =>
      if a.length = b.length ∧ b.length = parity.length then .ok [a, b, parityOf a b]
      else .error "IncorrectShardSize"
    | _ => .error "TooFewShards"
  reconstructData
    | [some a, some b, parity] => .ok [some a, some b, parity]
    | [none, some b, some parity] => .ok [some (firstOf b parity), some b, some parity]
    | [some a, none, some parity] => .ok [some a, some (secondOf a parity), some parity]
    | _ => .error "TooFewShardsPresent"

def reedSolomon11 : ReedSolomon where
  encode
    | [a, parity] =>
      if a.length = parity.length then .ok [a, a] else .error "IncorrectShardSize"
    | _ => .error "TooFewShards"
  reconstructData
    | [some a, parity] => .ok [some a, parity]
    | [none, some parity] => .ok [some parity, some parity]
    | _ => .error "TooFewShardsPresent"

def reedSolomon : Nat → Nat → Except String ReedSolomon
  | 2, 1 => .ok reedSolomon21
  | 1, 1 => .ok reedSolomon11
  | _, _ => .error "TooManyShards"

theorem firstOf_parityOf {a b : Bytes} (h : a.length = b.length) :
    firstOf b (parityOf a b) = a := by
  induction a generalizing b with
  | nil =>
    cases b with
    | nil => rfl
    | cons y b => cases h
  | cons x a ih =>
    cases b with
    | nil => cases h
    | cons y b =>
      have hx : gfThird (gfTriple x ^^^ gfDouble y ^^^ gfDouble y) = x := by
        rw [UInt8.xor_assoc, UInt8.xor_self, UInt8.xor_zero, gfThird_gfTriple]
      rw [firstOf, parityOf, List.zipWith_cons_cons, List.zipWith_cons_cons, hx]
      exact congrArg (x :: ·) (ih (Nat.succ.inj h))

theorem secondOf_parityOf {a b : Bytes} (h : a.length = b.length) :
    secondOf a (parityOf a b) = b := by
  induction a generalizing b with
  | nil =>
    cases b with
    | nil => rfl
    | cons y b => cases h
  | cons x a ih =>
    cases b with
    | nil => cases h
    | cons y b =>
      have hy : gfHalve (gfTriple x ^^^ gfDouble y ^^^ gfTriple x) = y := by
        rw [UInt8.xor_comm (gfTriple x), UInt8.xor_assoc, UInt8.xor_self, UInt8.xor_zero,
          gfHalve_gfDouble]
      rw [secondOf, parityOf, List.zipWith_cons_cons, List.zipWith_cons_cons, hy]
      exact congrArg (y :: ·) (ih (Nat.succ.inj h))

theorem parityOf_firstOf {b q : Bytes} (h : b.length = q.length) :
    parityOf (firstOf b q) b = q := by
  induction b generalizing q with
  | nil =>
    cases q with
    | nil => rfl
    | cons z q => cases h
  | cons y b ih =>
    cases q with
    | nil => cases h
    | cons z q =>
      have hz : gfTriple (gfThird (z ^^^ gfDouble y)) ^^^ gfDouble y = z := by
        rw [gfTriple_gfThird, UInt8.xor_assoc, UInt8.xor_self, UInt8.xor_zero]
      rw [firstOf, parityOf, List.zipWith_cons_cons, List.zipWith_cons_cons, hz]
      exact congrArg (z :: ·) (ih (Nat.succ.inj h))

theorem parityOf_secondOf {a q : Bytes} (h : a.length = q.length) :
    parityOf a (secondOf a q) = q := by
  induction a generalizing q with
  | nil =>
    cases q with
    | nil => rfl
    | cons z q => cases h
  | cons x a ih =>
    cases q with
    | nil => cases h
    | cons z q =>
      have hz : gfTriple x ^^^ gfDouble (gfHalve (z ^^^ gfTriple x)) = z := by
        rw [gfDouble_gfHalve, UInt8.xor_comm z, ← UInt8.xor_assoc, UInt8.xor_self,
          UInt8.zero_xor]
      rw [secondOf, parityOf, List.zipWith_cons_cons, List.zipWith_cons_cons, hz]
      exact congrArg (z :: ·) (ih (Nat.succ.inj h))

theorem parityOf_sum {a b a' b' : Bytes} : parityOf (List.zipWith (· ^^^ ·) a a')
    (List.zipWith (· ^^^ ·) b b') = List.zipWith (· ^^^ ·) (parityOf a b) (parityOf a' b') := by
  induction a generalizing b a' b' with
  | nil => rfl
  | cons x a ih =>
    cases a' with
    | nil => simp only [parityOf, List.zipWith_nil_left, List.zipWith_nil_right]
    | cons x' a' =>
      cases b with
      | nil => simp only [parityOf, List.zipWith_nil_right, List.zipWith_nil_left]
      | cons y b =>
        cases b' with
        | nil => simp only [parityOf, List.zipWith_nil_right]
        | cons y' b' =>
          have hx : gfTriple (x ^^^ x') ^^^ gfDouble (y ^^^ y') =
              (gfTriple x ^^^ gfDouble y) ^^^ (gfTriple x' ^^^ gfDouble y') := by
            rw [gfTriple_xor, gfDouble_xor]
            ac_rfl
          simp only [parityOf, List.zipWith_cons_cons, hx, List.cons.injEq, true_and]
          exact ih

theorem length_parityOf {a b : Bytes} (h : a.length = b.length) :
    (parityOf a b).length = a.length := by
  rw [parityOf, List.length_zipWith, ← h, Nat.min_self]

theorem below_one {P : Nat → Prop} (h : P 0) (i : Nat) (hi : i < 1) : P i := by
  rw [Nat.lt_one_iff.mp hi]
  exact h

theorem below_two {P : Nat → Prop} (h : P 0) (h' : P 1) (i : Nat) (hi : i < 2) : P i := by
  cases i with
  | zero => exact h
  | succ i =>
    rw [Nat.lt_one_iff.mp (Nat.lt_of_succ_lt_succ hi)]
    exact h'

theorem uniform_triple (hl : shards.length = 3) (hu : Uniform n shards) :
    ∃ a b q, shards = [a, b, q] ∧ a.length = n ∧ b.length = n ∧ q.length = n := by
  obtain ⟨a, b, q, rfl⟩ := List.length_eq_three.mp hl
  exact ⟨a, b, q, rfl, hu.2 a (by simp), hu.2 b (by simp), hu.2 q (by simp)⟩

theorem reedSolomon21_encode {a b q : Bytes} (hb : a.length = b.length) (hq : a.length = q.length) :
    reedSolomon21.encode [a, b, q] = .ok [a, b, parityOf a b] :=
  if_pos ⟨hb, hb.symm.trans hq⟩

theorem reedSolomon21_isWord {a b : Bytes} (hn : 0 < n) (ha : a.length = n) (hb : b.length = n) :
    reedSolomon21.IsWord 2 1 n [a, b, parityOf a b] where
  length := rfl
  uniform := by
    have hq := length_parityOf (ha.trans hb.symm)
    simp only [Uniform, List.mem_cons, List.not_mem_nil, or_false, forall_eq_or_imp, forall_eq]
    exact ⟨hn, ha, hb, hq.trans ha⟩
  encoded := reedSolomon21_encode (ha.trans hb.symm) (length_parityOf (ha.trans hb.symm)).symm

theorem reedSolomon21_word (h : reedSolomon21.IsWord 2 1 n word) :
    ∃ a b, word = [a, b, parityOf a b] ∧ 0 < n ∧ a.length = n ∧ b.length = n := by
  obtain ⟨a, b, q, rfl, ha, hb, hq⟩ := uniform_triple h.length h.uniform
  have he := h.encoded
  rw [reedSolomon21_encode (ha.trans hb.symm) (ha.trans hq.symm)] at he
  exact ⟨a, b, (Except.ok.inj he).symm, h.uniform.1, ha, hb⟩

theorem reedSolomon21_lawful : reedSolomon21.Lawful 2 1 where
  systematic := by
    intro n shards hl hu
    obtain ⟨a, b, q, rfl, ha, hb, hq⟩ := uniform_triple hl hu
    exact ⟨_, reedSolomon21_encode (ha.trans hb.symm) (ha.trans hq.symm), rfl,
      (reedSolomon21_isWord hu.1 ha hb).uniform, rfl⟩
  restores := by
    intro n shards word xs hl hu he hpart hp
    obtain ⟨a, b, q, rfl, ha, hb, hq⟩ := uniform_triple hl hu
    rw [reedSolomon21_encode (ha.trans hb.symm) (ha.trans hq.symm)] at he
    cases he
    obtain ⟨x₀, x₁, x₂, rfl⟩ := List.length_eq_three.mp hpart.1
    have hfirst := firstOf_parityOf (ha.trans hb.symm)
    have hsecond := secondOf_parityOf (ha.trans hb.symm)
    rcases hpart.slot 0 rfl rfl with rfl | rfl
    · rcases hpart.slot 1 rfl rfl with rfl | rfl
      · rcases hpart.slot 2 rfl rfl with rfl | rfl
        · exact absurd hp (by decide)
        · exact absurd hp (by simp [present])
      · rcases hpart.slot 2 rfl rfl with rfl | rfl
        · exact absurd hp (by simp [present])
        · refine ⟨_, rfl, rfl, ?_⟩
          rw [hfirst]
          exact below_two rfl rfl
    · rcases hpart.slot 1 rfl rfl with rfl | rfl
      · rcases hpart.slot 2 rfl rfl with rfl | rfl
        · exact absurd hp (by simp [present])
        · refine ⟨_, rfl, rfl, ?_⟩
          rw [hsecond]
          exact below_two rfl rfl
      · exact ⟨_, rfl, rfl, below_two rfl rfl⟩

theorem partOf_triple {x₀ x₁ x₂ : Option α} {a b q : α} (h₀ : x₀ = none ∨ x₀ = some a)
    (h₁ : x₁ = none ∨ x₁ = some b) (h₂ : x₂ = none ∨ x₂ = some q) :
    PartOf [x₀, x₁, x₂] [a, b, q] := by
  refine ⟨rfl, fun i x hx => ?_⟩
  cases i with
  | zero =>
    cases hx
    exact (h₀.resolve_left (Option.some_ne_none x)).symm
  | succ i =>
    cases i with
    | zero =>
      cases hx
      exact (h₁.resolve_left (Option.some_ne_none x)).symm
    | succ i =>
      cases i with
      | zero =>
        cases hx
        exact (h₂.resolve_left (Option.some_ne_none x)).symm
      | succ i => cases hx

theorem reedSolomon21_fills {xs : List (Option Bytes)} (hn : 0 < n) (hl : xs.length = 3)
    (hlen : ∀ (i : Nat) (s : Bytes), xs[i]? = some (some s) → s.length = n)
    (hp : present xs = 2) : ∃ word, reedSolomon21.IsWord 2 1 n word ∧ PartOf xs word := by
  obtain ⟨x₀, x₁, x₂, rfl⟩ := List.length_eq_three.mp hl
  cases x₀ with
  | none =>
    cases x₁ with
    | none => cases x₂ <;> exact absurd hp (by simp [present])
    | some b =>
      cases x₂ with
      | none => exact absurd hp (by simp [present])
      | some q =>
        have hb := hlen 1 b rfl
        have hq := hlen 2 q rfl
        have ha : (firstOf b q).length = n := by
          rw [firstOf, List.length_zipWith, hb, hq, Nat.min_self]
        have h := reedSolomon21_isWord hn ha hb
        rw [parityOf_firstOf (hb.trans hq.symm)] at h
        exact ⟨_, h, partOf_triple (.inl rfl) (.inr rfl) (.inr rfl)⟩
  | some a =>
    have ha := hlen 0 a rfl
    cases x₁ with
    | none =>
      cases x₂ with
      | none => exact absurd hp (by simp [present])
      | some q =>
        have hq := hlen 2 q rfl
        have hb : (secondOf a q).length = n := by
          rw [secondOf, List.length_zipWith, ha, hq, Nat.min_self]
        have h := reedSolomon21_isWord hn ha hb
        rw [parityOf_secondOf (ha.trans hq.symm)] at h
        exact ⟨_, h, partOf_triple (.inr rfl) (.inl rfl) (.inr rfl)⟩
    | some b =>
      cases x₂ with
      | none =>
        exact ⟨_, reedSolomon21_isWord hn ha (hlen 1 b rfl),
          partOf_triple (.inr rfl) (.inr rfl) (.inl rfl)⟩
      | some q => exact absurd hp (by simp [present])

theorem reedSolomon21_linear : reedSolomon21.Linear 2 1 (· ^^^ ·) 0 where
  lawful := reedSolomon21_lawful
  data_only := by
    intro n u v hu hv hun hvn ht
    obtain ⟨a, b, q, rfl, ha, hb, hq⟩ := uniform_triple hu hun
    obtain ⟨a', b', q', rfl, _, _, hq'⟩ := uniform_triple hv hvn
    cases ht
    rw [reedSolomon21_encode (ha.trans hb.symm) (ha.trans hq.symm),
      reedSolomon21_encode (ha.trans hb.symm) (ha.trans hq'.symm)]
  zero := by
    intro n hn
    have hlen : (List.replicate n (0 : UInt8)).length = n := List.length_replicate
    have hzero : parityOf (List.replicate n 0) (List.replicate n 0) = List.replicate n 0 :=
      List.zipWith_replicate'
    have h := reedSolomon21_isWord hn hlen hlen
    rw [hzero] at h
    exact h
  sum := by
    intro n u v hu hv
    obtain ⟨a, b, rfl, hn, ha, hb⟩ := reedSolomon21_word hu
    obtain ⟨a', b', rfl, _, ha', hb'⟩ := reedSolomon21_word hv
    have hlen {x y : Bytes} (hx : x.length = n) (hy : y.length = n) :
        (List.zipWith (· ^^^ ·) x y).length = n := by
      rw [List.length_zipWith, hx, hy, Nat.min_self]
    have h := reedSolomon21_isWord hn (hlen ha ha') (hlen hb hb')
    rw [parityOf_sum] at h
    exact h
  append := by
    intro m n u v hu hv
    obtain ⟨a, b, rfl, hm, ha, hb⟩ := reedSolomon21_word hu
    obtain ⟨a', b', rfl, _, ha', hb'⟩ := reedSolomon21_word hv
    have hlen {x y : Bytes} (hx : x.length = m) (hy : y.length = n) :
        (x ++ y).length = m + n := by
      rw [List.length_append, hx, hy]
    have h := reedSolomon21_isWord (Nat.add_pos_left hm n) (hlen ha ha') (hlen hb hb')
    rw [parityOf, List.zipWith_append (ha.trans hb.symm)] at h
    exact h
  fills _ _ hn hl hlen hp := reedSolomon21_fills hn hl hlen hp

theorem reedSolomon11_lawful : reedSolomon11.Lawful 1 1 where
  systematic := by
    intro n shards hl hu
    obtain ⟨a, q, rfl⟩ := List.length_eq_two.mp hl
    have ha := hu.2 a (by simp)
    have hq := hu.2 q (by simp)
    refine ⟨[a, a], ?_, rfl, ⟨hu.1, ?_⟩, rfl⟩
    · simp only [reedSolomon11, ha, hq, if_true]
    · intro s hs
      simp only [List.mem_cons, List.not_mem_nil, or_false, or_self] at hs
      rw [hs, ha]
  restores := by
    intro n shards word xs hl hu he hpart hp
    obtain ⟨a, q, rfl⟩ := List.length_eq_two.mp hl
    have ha := hu.2 a (by simp)
    have hq := hu.2 q (by simp)
    simp only [reedSolomon11, ha, hq, if_true, Except.ok.injEq] at he
    subst he
    obtain ⟨x₀, x₁, rfl⟩ := List.length_eq_two.mp hpart.1
    rcases hpart.slot 0 rfl rfl with rfl | rfl
    · rcases hpart.slot 1 rfl rfl with rfl | rfl
      · exact absurd hp (by decide)
      · exact ⟨_, rfl, rfl, below_one rfl⟩
    · exact ⟨_, rfl, rfl, below_one rfl⟩

theorem reedSolomon21_keepsShardCount : reedSolomon21.KeepsShardCount := by
  intro xs ys h
  simp only [reedSolomon21] at h
  split at h
  · cases h
    rfl
  · cases h
    rfl
  · cases h
    rfl
  · cases h

end TokioKcp.Fec
