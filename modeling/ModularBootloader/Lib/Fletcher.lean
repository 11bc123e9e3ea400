import Mathlib

/-!
# Fletcher sums

Two running sums of words of `k` bits, the second of them over the values of the
first, both modulo `2 ^ k - 1`. Two texts have the same sums when what one adds to
the other vanishes in every weighting of its words by their distance from a place,
so that damage within fewer than `k` bits in a row, or in any two bits, shows.
-/

namespace Fletcher

def step (m : Nat) (s : Nat × Nat) (w : Nat) : Nat × Nat :=
  ((s.1 + w) % m, (s.2 + (s.1 + w) % m) % m)

def sums (m : Nat) (f : Nat → Nat) (n : Nat) : Nat × Nat :=
  (List.range n).foldl (fun s i => step m s (f i)) (0, 0)

theorem sums_succ (m : Nat) (f : Nat → Nat) (n : Nat) :
    sums m f (n + 1) = step m (sums m f n) (f n) := by
  simp [sums, List.range_succ]

section Sums
variable {m n : Nat} {f g : Nat → Nat}

theorem sums_lt (hm : 0 < m) (f : Nat → Nat) (n : Nat) :
    (sums m f n).1 < m ∧ (sums m f n).2 < m := by
  cases n with
  | zero => exact ⟨hm, hm⟩
  | succ n =>
    rw [sums_succ]
    exact ⟨Nat.mod_lt _ hm, Nat.mod_lt _ hm⟩

theorem sums_modEq (m : Nat) (f : Nat → Nat) (n : Nat) :
    ((sums m f n).1 : Int) ≡ ∑ i ∈ Finset.range n, (f i : Int) [ZMOD m] ∧
      ((sums m f n).2 : Int) ≡ ∑ i ∈ Finset.range n, ((n : Int) - i) * f i [ZMOD m] := by
  induction n with
  | zero => exact ⟨rfl, rfl⟩
  | succ n ih =>
    obtain ⟨hfirst, hsecond⟩ := ih
    have hnext : ((sums m f (n + 1)).1 : Int) ≡ ∑ i ∈ Finset.range (n + 1), (f i : Int)
        [ZMOD m] := by
      rw [sums_succ, Finset.sum_range_succ]
      simp only [step, Int.natCast_mod, Nat.cast_add]
      exact (Int.mod_modEq _ _).trans (hfirst.add_right _)
    refine ⟨hnext, ?_⟩
    have hweights : ∑ i ∈ Finset.range (n + 1), (((n + 1 : Nat) : Int) - i) * f i =
        ∑ i ∈ Finset.range n, ((n : Int) - i) * f i +
          ∑ i ∈ Finset.range (n + 1), (f i : Int) := by
      rw [Finset.sum_range_succ, Finset.sum_range_succ (fun i => (f i : Int)), ← add_assoc,
        ← Finset.sum_add_distrib]
      congr 1
      · apply Finset.sum_congr rfl
        intro i _
        push_cast
        ring
      · push_cast
        ring
    rw [hweights]
    rw [sums_succ] at hnext ⊢
    simp only [step, Int.natCast_mod, Nat.cast_add] at hnext ⊢
    exact (Int.mod_modEq _ _).trans (hsecond.add hnext)

theorem sums_eq_dvd (h : sums m f n = sums m g n) (c : Int) :
    (m : Int) ∣ ∑ i ∈ Finset.range n, (c - i) * ((g i : Int) - f i) := by
  obtain ⟨hf, hf'⟩ := sums_modEq m f n
  obtain ⟨hg, hg'⟩ := sums_modEq m g n
  rw [h] at hf hf'
  have hplain := (hf.symm.trans hg).dvd
  have hweighted := (hf'.symm.trans hg').dvd
  have hsplit : ∑ i ∈ Finset.range n, (c - i) * ((g i : Int) - f i) =
      (∑ i ∈ Finset.range n, ((n : Int) - i) * g i - ∑ i ∈ Finset.range n, ((n : Int) - i) * f i) +
        (c - n) * (∑ i ∈ Finset.range n, (g i : Int) - ∑ i ∈ Finset.range n, (f i : Int)) := by
    rw [← Finset.sum_sub_distrib, ← Finset.sum_sub_distrib, Finset.mul_sum,
      ← Finset.sum_add_distrib]
    apply Finset.sum_congr rfl
    intro i _
    ring
  rw [hsplit]
  exact dvd_add hweighted (Dvd.dvd.mul_left hplain _)

theorem sums_eq_two (h : sums m f n = sums m g n) {i j : Nat} (hi : i < n)
    (hrest : ∀ t < n, t ≠ i → t ≠ j → f t = g t) :
    (m : Int) ∣ ((j : Int) - i) * ((g i : Int) - f i) := by
  have hdvd := sums_eq_dvd h j
  rw [Finset.sum_eq_single_of_mem i (Finset.mem_range.mpr hi)] at hdvd
  · exact hdvd
  · intro t ht hti
    by_cases htj : t = j
    · rw [htj]
      ring
    · rw [hrest t (Finset.mem_range.mp ht) hti htj]
      ring

end Sums

def bit (k : Nat) (f : Nat → Nat) (p : Nat) : Bool := (f (p / k)).testBit (p % k)

theorem bit_word {k t a : Nat} (ha : a < k) (f : Nat → Nat) :
    bit k f (k * t + a) = (f t).testBit a := by
  have hk : 0 < k := by omega
  rw [bit, Nat.mul_add_div hk, Nat.div_eq_of_lt ha, Nat.add_zero, Nat.mul_add_mod,
    Nat.mod_eq_of_lt ha]

section Words
variable {k w w' a : Nat}

theorem word_ext (hw : w < 2 ^ k) (hw' : w' < 2 ^ k)
    (h : ∀ a < k, w.testBit a = w'.testBit a) : w = w' := by
  apply Nat.eq_of_testBit_eq
  intro a
  by_cases ha : a < k
  · exact h a ha
  · have hpow : 2 ^ k ≤ 2 ^ a := Nat.pow_le_pow_right (by decide) (Nat.not_lt.mp ha)
    rw [Nat.testBit_eq_false_of_lt (by omega), Nat.testBit_eq_false_of_lt (by omega)]

theorem word_of_dvd (hw : w < 2 ^ k) (hw' : w' < 2 ^ k)
    (hdvd : ((2 ^ k - 1 : Nat) : Int) ∣ (w' : Int) - w) (ha : a < k)
    (hbit : w.testBit a = w'.testBit a) : w = w' := by
  have hones : (2 ^ k - 1).testBit a = true := by
    rw [Nat.testBit_two_pow_sub_one]
    exact decide_eq_true ha
  have hmod : w ≡ w' [MOD 2 ^ k - 1] := (Nat.modEq_iff_dvd).mpr hdvd
  rcases Nat.lt_trichotomy w w' with hlt | heq | hlt
  · have hdist := (Nat.modEq_iff_dvd' hlt.le).mp hmod
    have hle := Nat.le_of_dvd (by omega) hdist
    obtain ⟨hzero, hfull⟩ : w = 0 ∧ w' = 2 ^ k - 1 := by omega
    rw [hzero, hfull, hones, Nat.zero_testBit] at hbit
    cases hbit
  · exact heq
  · have hdist := (Nat.modEq_iff_dvd' hlt.le).mp hmod.symm
    have hle := Nat.le_of_dvd (by omega) hdist
    obtain ⟨hzero, hfull⟩ : w' = 0 ∧ w = 2 ^ k - 1 := by omega
    rw [hzero, hfull, hones, Nat.zero_testBit] at hbit
    cases hbit

theorem word_set (hrest : ∀ b, b ≠ a → w.testBit b = w'.testBit b) (hclear : w.testBit a = false)
    (hset : w'.testBit a = true) : w' = w + 2 ^ a := by
  induction a generalizing w w' with
  | zero =>
    have hhalf : w / 2 = w' / 2 := by
      apply Nat.eq_of_testBit_eq
      intro b
      rw [Nat.testBit_div_two, Nat.testBit_div_two]
      exact hrest (b + 1) (by omega)
    rw [Nat.testBit_zero] at hclear hset
    have heven := of_decide_eq_false hclear
    have hodd := of_decide_eq_true hset
    omega
  | succ a ih =>
    have hlow := hrest 0 (by omega)
    rw [Nat.testBit_zero, Nat.testBit_zero, decide_eq_decide] at hlow
    rw [Nat.testBit_succ] at hclear hset
    have hrest' : ∀ b, b ≠ a → (w / 2).testBit b = (w' / 2).testBit b := by
      intro b hb
      rw [Nat.testBit_div_two, Nat.testBit_div_two]
      exact hrest (b + 1) (by omega)
    have hhalf := ih hrest' hclear hset
    rw [Nat.pow_succ]
    omega

theorem word_flip (hw : w < 2 ^ k) (hw' : w' < 2 ^ k) (hne : w ≠ w')
    (hrest : ∀ b < k, b ≠ a → w.testBit b = w'.testBit b) :
    (w' : Int) - w = 2 ^ a ∨ (w' : Int) - w = -2 ^ a := by
  have hall : ∀ b, b ≠ a → w.testBit b = w'.testBit b := by
    intro b hb
    by_cases hk : b < k
    · exact hrest b hk hb
    · have hpow : 2 ^ k ≤ 2 ^ b := Nat.pow_le_pow_right (by decide) (Nat.not_lt.mp hk)
      rw [Nat.testBit_eq_false_of_lt (by omega), Nat.testBit_eq_false_of_lt (by omega)]
  have hdiffers : w.testBit a ≠ w'.testBit a := by
    intro hsame
    apply hne
    apply Nat.eq_of_testBit_eq
    intro b
    by_cases hb : b = a
    · rw [hb]
      exact hsame
    · exact hall b hb
  cases hbit : w.testBit a with
  | false =>
    have hset : w'.testBit a = true := by simpa [hbit] using hdiffers.symm
    have hsum := word_set hall hbit hset
    refine .inl ?_
    rw [hsum]
    push_cast
    ring
  | true =>
    have hclear : w'.testBit a = false := by simpa [hbit] using hdiffers.symm
    have hsum := word_set (fun b hb => (hall b hb).symm) hclear hbit
    refine .inr ?_
    rw [hsum]
    push_cast
    ring

theorem dvd_of_flip (hk : 0 < k) {c d : Int} (hd : d = 2 ^ a ∨ d = -2 ^ a)
    (hdvd : ((2 ^ k - 1 : Nat) : Int) ∣ c * d) : ((2 ^ k - 1 : Nat) : Int) ∣ c := by
  have hodd : Odd (2 ^ k - 1) := Nat.Even.sub_odd (Nat.one_le_two_pow)
    ((Nat.even_pow.mpr ⟨even_two, by omega⟩)) odd_one
  have hcoprime : IsCoprime ((2 ^ k - 1 : Nat) : Int) (2 ^ a) := by
    have hnat : Nat.Coprime (2 ^ k - 1) (2 ^ a) :=
      Nat.Coprime.pow_right a (Nat.coprime_two_right.mpr hodd)
    exact_mod_cast Nat.isCoprime_iff_coprime.mpr hnat
  apply hcoprime.dvd_of_dvd_mul_right
  rcases hd with rfl | rfl
  · exact hdvd
  · simpa using hdvd

end Words

/-- Some bits differ, all of them within fewer than `k` places in a row or at two places. -/
structure Damaged (k n : Nat) (f g : Nat → Nat) : Prop where
  differs : ∃ p < k * n, bit k f p ≠ bit k g p
  within : (∃ s, ∀ p < k * n, p < s ∨ s + k ≤ p + 1 → bit k f p = bit k g p) ∨
    ∃ p q, ∀ r < k * n, r ≠ p → r ≠ q → bit k f r = bit k g r

section Damage
variable {k n : Nat} {f g : Nat → Nat}

theorem bit_lt {t a : Nat} (ht : t < n) (ha : a < k) : k * t + a < k * n := by
  calc k * t + a < k * t + k := by omega
    _ = k * (t + 1) := by ring
    _ ≤ k * n := Nat.mul_le_mul_left k ht

theorem words_of_bits (hf : ∀ t < n, f t < 2 ^ k) (hg : ∀ t < n, g t < 2 ^ k) {t : Nat} (ht : t < n)
    (h : ∀ a < k, bit k f (k * t + a) = bit k g (k * t + a)) : f t = g t := by
  apply word_ext (hf t ht) (hg t ht)
  intro a ha
  have hbit := h a ha
  rw [bit_word ha, bit_word ha] at hbit
  exact hbit

theorem word_kept (hf : ∀ t < n, f t < 2 ^ k) (hg : ∀ t < n, g t < 2 ^ k)
    (h : sums (2 ^ k - 1) f n = sums (2 ^ k - 1) g n) {i j a : Nat} (hi : i < n)
    (hnext : j = i + 1 ∨ i = j + 1) (hrest : ∀ t < n, t ≠ i → t ≠ j → f t = g t) (ha : a < k)
    (hbit : bit k f (k * i + a) = bit k g (k * i + a)) : f i = g i := by
  have hdvd := sums_eq_two h hi hrest
  rw [bit_word ha, bit_word ha] at hbit
  apply word_of_dvd (hf i hi) (hg i hi) ?_ ha hbit
  rcases hnext with rfl | rfl
  · have hone : (((i + 1 : Nat) : Int) - i) = 1 := by
      push_cast
      ring
    rw [hone, one_mul] at hdvd
    exact hdvd
  · have hone : ((j : Int) - (j + 1 : Nat)) = -1 := by
      push_cast
      ring
    rw [hone, neg_one_mul, dvd_neg] at hdvd
    exact hdvd

theorem burst_kept (hk : 0 < k) (hf : ∀ t < n, f t < 2 ^ k) (hg : ∀ t < n, g t < 2 ^ k)
    (h : sums (2 ^ k - 1) f n = sums (2 ^ k - 1) g n) {s : Nat}
    (hrest : ∀ p < k * n, p < s ∨ s + k ≤ p + 1 → bit k f p = bit k g p) :
    ∀ t < n, f t = g t := by
  have hdiv := Nat.div_add_mod s k
  have hmod := Nat.mod_lt s hk
  generalize hi : s / k = i at hdiv
  generalize s % k = r at hdiv hmod
  have hothers : ∀ t < n, t ≠ i → t ≠ i + 1 → f t = g t := by
    intro t ht hti hti'
    apply words_of_bits hf hg ht
    intro a ha
    apply hrest _ (bit_lt ht ha)
    rcases Nat.lt_or_gt_of_ne hti with hlt | hgt
    · have hle : k * (t + 1) ≤ k * i := Nat.mul_le_mul_left k hlt
      rw [Nat.mul_add, Nat.mul_one] at hle
      omega
    · have hle : k * (i + 2) ≤ k * t := Nat.mul_le_mul_left k (by omega)
      rw [Nat.mul_add] at hle
      omega
  have hfirst : i < n → f i = g i := by
    intro hin
    by_cases hr : r = 0
    · apply word_kept hf hg h hin (.inl rfl) hothers (show k - 1 < k by omega)
      exact hrest _ (bit_lt hin (by omega)) (by omega)
    · apply word_kept hf hg h hin (.inl rfl) hothers hk
      exact hrest _ (bit_lt hin hk) (by omega)
  have hsecond : i + 1 < n → f (i + 1) = g (i + 1) := by
    intro hin
    apply word_kept hf hg h hin (.inr rfl) (fun t ht hne hne' => hothers t ht hne' hne)
      (show k - 1 < k by omega)
    apply hrest _ (bit_lt hin (by omega))
    rw [Nat.mul_add, Nat.mul_one]
    omega
  intro t ht
  by_cases hti : t = i
  · subst hti
    exact hfirst ht
  by_cases hti' : t = i + 1
  · subst hti'
    exact hsecond ht
  exact hothers t ht hti hti'

theorem word_place {t a : Nat} (ha : a < k) : (k * t + a) / k = t ∧ (k * t + a) % k = a := by
  constructor
  · rw [Nat.mul_add_div (by omega), Nat.div_eq_of_lt ha, Nat.add_zero]
  · rw [Nat.mul_add_mod, Nat.mod_eq_of_lt ha]

theorem flip_kept (hk : 3 ≤ k) (hn : n < 2 ^ k) (hf : ∀ t < n, f t < 2 ^ k)
    (hg : ∀ t < n, g t < 2 ^ k) (h : sums (2 ^ k - 1) f n = sums (2 ^ k - 1) g n) {i j a : Nat}
    (hi : i < n) (hij : i ≠ j) (hrest : ∀ t < n, t ≠ i → t ≠ j → f t = g t)
    (hbits : ∀ b < k, b ≠ a → (f i).testBit b = (g i).testBit b) : f i = g i := by
  have hpow : 2 ^ 3 ≤ 2 ^ k := Nat.pow_le_pow_right (by decide) hk
  by_contra hne
  have hflip := word_flip (hf i hi) (hg i hi) hne hbits
  -- Without a second word in the text, the next one stands for it.
  obtain ⟨j', hij', hsmall, hrest'⟩ : ∃ j', i ≠ j' ∧ (j' < n ∨ j' = i + 1) ∧
      ∀ t < n, t ≠ i → t ≠ j' → f t = g t := by
    by_cases hj : j < n
    · exact ⟨j, hij, .inl hj, hrest⟩
    · exact ⟨i + 1, by omega, .inr rfl, fun t ht hti _ => hrest t ht hti (by omega)⟩
  have hdvd := dvd_of_flip (by omega) hflip (sums_eq_two h hi hrest')
  have hzero := Int.eq_zero_of_abs_lt_dvd hdvd (by
    rw [abs_lt]
    omega)
  omega

theorem two_kept (hk : 3 ≤ k) (hn : n < 2 ^ k) (hf : ∀ t < n, f t < 2 ^ k)
    (hg : ∀ t < n, g t < 2 ^ k) (h : sums (2 ^ k - 1) f n = sums (2 ^ k - 1) g n) {p q : Nat}
    (hrest : ∀ r < k * n, r ≠ p → r ≠ q → bit k f r = bit k g r) :
    ∀ t < n, f t = g t := by
  have hbits : ∀ t < n, ∀ a < k, (t = p / k → a ≠ p % k) → (t = q / k → a ≠ q % k) →
      (f t).testBit a = (g t).testBit a := by
    intro t ht a ha hp hq
    obtain ⟨hdiv, hmod⟩ := word_place (t := t) ha
    have hsame := hrest (k * t + a) (bit_lt ht ha)
      (by
        rintro rfl
        exact hp hdiv.symm hmod.symm)
      (by
        rintro rfl
        exact hq hdiv.symm hmod.symm)
    rw [bit_word ha, bit_word ha] at hsame
    exact hsame
  have hothers : ∀ t < n, t ≠ p / k → t ≠ q / k → f t = g t := by
    intro t ht htp htq
    apply word_ext (hf t ht) (hg t ht)
    intro a ha
    exact hbits t ht a ha (fun htp' => absurd htp' htp) (fun htq' => absurd htq' htq)
  by_cases hword : p / k = q / k
  · -- One of three bits is neither of the two.
    obtain ⟨a, ha, hap, haq⟩ : ∃ a < 3, a ≠ p % k ∧ a ≠ q % k := by
      by_contra hno
      push Not at hno
      have h0 := hno 0 (by omega)
      have h1 := hno 1 (by omega)
      have h2 := hno 2 (by omega)
      omega
    intro t ht
    by_cases htp : t = p / k
    · subst htp
      apply word_kept hf hg h ht (.inl rfl) (fun u hu hup _ => hothers u hu hup (hword ▸ hup))
        (show a < k by omega)
      rw [bit_word (by omega), bit_word (by omega)]
      exact hbits _ ht a (by omega) (fun _ => hap) (fun _ => haq)
    · exact hothers t ht htp (hword ▸ htp)
  · intro t ht
    by_cases htp : t = p / k
    · subst htp
      exact flip_kept hk hn hf hg h ht hword hothers fun b hb hbp =>
        hbits _ ht b hb (fun _ => hbp) (fun heq => absurd heq hword)
    · by_cases htq : t = q / k
      · subst htq
        exact flip_kept hk hn hf hg h ht (Ne.symm hword)
          (fun u hu huq hup => hothers u hu hup huq) fun b hb hbq =>
            hbits _ ht b hb (fun heq => absurd heq.symm hword) (fun _ => hbq)
      · exact hothers t ht htp htq

/-- Damaged words have other sums. -/
theorem Damaged.sums_ne (hdamage : Damaged k n f g) (hk : 3 ≤ k) (hn : n < 2 ^ k)
    (hf : ∀ t < n, f t < 2 ^ k) (hg : ∀ t < n, g t < 2 ^ k) :
    sums (2 ^ k - 1) f n ≠ sums (2 ^ k - 1) g n := by
  intro h
  have hkept : ∀ t < n, f t = g t := by
    rcases hdamage.within with ⟨s, hrest⟩ | ⟨p, q, hrest⟩
    · exact burst_kept (by omega) hf hg h hrest
    · exact two_kept hk hn hf hg h hrest
  obtain ⟨p, hp, hne⟩ := hdamage.differs
  apply hne
  rw [bit, bit, hkept (p / k) (Nat.div_lt_of_lt_mul hp)]

end Damage

end Fletcher
