import Fluffi.Systems.Shares
import Fluffi.Shared.Identity
import Mathlib.Data.List.Induction

/-! The communication partners of a TestcaseRunner. The LocalManager sends the generators
and evaluators with their weights; for each testcase the runner draws one of each, by walking
the list until the weights passed reach the drawn number. The sum of the weights is kept
beside the list, and the walk exits the process when its 64-bit accumulator would run over.
Every drawn number is a parameter. -/

namespace Fluffi.Runner

open Fluffi.Shared Fluffi.Systems

structure FluffiServiceAndWeight where
  m_serviceDescriptor : FluffiServiceDescriptor
  m_weight : UInt32
  deriving DecidableEq, Repr

/-- A repeated field of a message. Its size is an `int`. -/
structure RepeatedPtrField (α : Type*) where
  elements : List α
  size_lt : elements.length < 2 ^ 31

structure CommPartnerManager where
  m_weigthSum : UInt64
  m_commDescriptorSet : List FluffiServiceAndWeight
  deriving DecidableEq

/-- How the loop over the partners ends. `partner it` stops at the position `it`. -/
inductive PartnerLoop where
  | exitFailure
  | partner (it : ℕ)
  | noneLeft
  deriving DecidableEq, Repr

namespace CommPartnerManager

def new : CommPartnerManager := ⟨0, []⟩

/-- The loop of `getNextPartner` from position `it` on. -/
def partnerLoop (randNum : UInt64) :
    UInt64 → ℕ → List FluffiServiceAndWeight → PartnerLoop
  | _, _, [] => .noneLeft
  | cummulativeProbability, it, p :: rest =>
    let remainingSize := 18446744073709551615 - cummulativeProbability
    if remainingSize ≤ p.m_weight.toUInt64 then .exitFailure
    else
      let cummulativeProbability := cummulativeProbability + p.m_weight.toUInt64
      if randNum ≤ cummulativeProbability then .partner it
      else partnerLoop randNum cummulativeProbability (it + 1) rest

/-- The returned host and port, `none` when the process exits. -/
def getNextPartner (s : CommPartnerManager) (randNum : UInt64) : Option String :=
  if s.m_weigthSum = 0 then some ""
  else
    match partnerLoop randNum 0 0 s.m_commDescriptorSet with
    | .exitFailure => none
    | .partner it => s.m_commDescriptorSet[it]?.map (·.m_serviceDescriptor.m_serviceHostAndPort)
    | .noneLeft => some ""

/-- One round of the loop of `updateCommPartners`, with the number of inserted partners. -/
def insertPartner (s : CommPartnerManager × UInt32) (p : FluffiServiceAndWeight) :
    CommPartnerManager × UInt32 :=
  (⟨s.1.m_weigthSum + p.m_weight.toUInt64, s.1.m_commDescriptorSet ++ [p]⟩, s.2 + 1)

/-- The manager afterwards and the returned number. Nothing of the old list is kept. -/
def updateCommPartners (_ : CommPartnerManager)
    (partners : RepeatedPtrField FluffiServiceAndWeight) : CommPartnerManager × UInt32 :=
  partners.elements.foldl insertPartner (⟨0, []⟩, 0)

/-- The manager after a sequence of updates. -/
def updates (lists : List (RepeatedPtrField FluffiServiceAndWeight)) : CommPartnerManager :=
  lists.foldl (fun s partners => (s.updateCommPartners partners).1) new

/-! ### The sum -/

def weights (s : CommPartnerManager) : List ℕ :=
  s.m_commDescriptorSet.map (·.m_weight.toNat)

/-- What the loop and the sum rely on. -/
structure Consistent (s : CommPartnerManager) : Prop where
  size_lt : s.m_commDescriptorSet.length < 2 ^ 31
  sum_eq : s.m_weigthSum.toNat = s.weights.sum

theorem sum_weights_le (ps : List FluffiServiceAndWeight) :
    (ps.map (·.m_weight.toNat)).sum ≤ ps.length * (2 ^ 32 - 1) := by
  induction ps with
  | nil => simp
  | cons p ps ih =>
    have := p.m_weight.toNat_lt
    simp only [List.map_cons, List.sum_cons, List.length_cons]
    omega

theorem foldl_insertPartner (ps : List FluffiServiceAndWeight)
    (s : CommPartnerManager × UInt32)
    (hsum : s.1.m_weigthSum.toNat + (ps.map (·.m_weight.toNat)).sum < 2 ^ 64) :
    (ps.foldl insertPartner s).1.m_commDescriptorSet = s.1.m_commDescriptorSet ++ ps ∧
      (ps.foldl insertPartner s).1.m_weigthSum.toNat =
        s.1.m_weigthSum.toNat + (ps.map (·.m_weight.toNat)).sum ∧
      (ps.foldl insertPartner s).2.toNat = (s.2.toNat + ps.length) % 2 ^ 32 := by
  induction ps generalizing s with
  | nil => simp
  | cons p ps ih =>
    simp only [List.map_cons, List.sum_cons] at hsum
    have hstep : (insertPartner s p).1.m_weigthSum.toNat =
        s.1.m_weigthSum.toNat + p.m_weight.toNat := by
      simp only [insertPartner, UInt64.toNat_add, UInt32.toNat_toUInt64]
      omega
    obtain ⟨hset, hs, hn⟩ := ih (insertPartner s p) (by omega)
    rw [List.foldl_cons, hset, hs, hn, hstep]
    refine ⟨by simp [insertPartner], ?_, ?_⟩
    · simp only [List.map_cons, List.sum_cons]
      omega
    · simp only [insertPartner, UInt32.toNat_add, List.length_cons]
      simp only [UInt32.reduceToNat]
      omega

section

variable (s : CommPartnerManager) (partners : RepeatedPtrField FluffiServiceAndWeight)

theorem sum_elements_lt : (partners.elements.map (·.m_weight.toNat)).sum < 2 ^ 63 := by
  have := sum_weights_le partners.elements
  have := partners.size_lt
  omega

theorem updateCommPartners_set :
    (s.updateCommPartners partners).1.m_commDescriptorSet = partners.elements := by
  have := sum_elements_lt partners
  obtain ⟨h, -, -⟩ := foldl_insertPartner partners.elements (⟨0, []⟩, 0) (by simp; omega)
  simpa [updateCommPartners] using h

theorem updateCommPartners_consistent : (s.updateCommPartners partners).1.Consistent where
  size_lt := by
    rw [updateCommPartners_set]
    exact partners.size_lt
  sum_eq := by
    have := sum_elements_lt partners
    obtain ⟨-, h, -⟩ := foldl_insertPartner partners.elements (⟨0, []⟩, 0) (by simp; omega)
    rw [weights, updateCommPartners_set]
    simpa [updateCommPartners] using h

/-- The number it reports is the number of partners it was given. -/
theorem updateCommPartners_number :
    (s.updateCommPartners partners).2.toNat = partners.elements.length := by
  have := sum_elements_lt partners
  have := partners.size_lt
  obtain ⟨-, -, h⟩ := foldl_insertPartner partners.elements (⟨0, []⟩, 0) (by simp; omega)
  rw [updateCommPartners, h]
  simp only [UInt32.reduceToNat]
  omega

end

theorem updates_append (lists : List (RepeatedPtrField FluffiServiceAndWeight))
    (partners : RepeatedPtrField FluffiServiceAndWeight) :
    updates (lists ++ [partners]) = ((updates lists).updateCommPartners partners).1 := by
  simp [updates]

theorem updates_consistent (lists : List (RepeatedPtrField FluffiServiceAndWeight)) :
    (updates lists).Consistent := by
  induction lists using List.reverseRecOn with
  | nil => exact ⟨by decide, rfl⟩
  | append_singleton lists partners _ =>
    rw [updates_append]
    exact updateCommPartners_consistent _ _

theorem updates_set (lists : List (RepeatedPtrField FluffiServiceAndWeight)) :
    (updates lists).m_commDescriptorSet = (lists.getLast?.map (·.elements)).getD [] := by
  induction lists using List.reverseRecOn with
  | nil => rfl
  | append_singleton lists partners _ =>
    rw [updates_append, updateCommPartners_set]
    simp

/-! ### The walk -/

@[simp] theorem length_weights (s : CommPartnerManager) :
    s.weights.length = s.m_commDescriptorSet.length := by
  simp [weights]

theorem Consistent.sum_lt {s : CommPartnerManager} (hs : s.Consistent) :
    s.weights.sum < 2 ^ 63 := by
  have := sum_weights_le s.m_commDescriptorSet
  have := hs.size_lt
  simp only [weights]
  omega

/-- While the weights passed stay below the largest number, the overflow test fails. -/
theorem partnerLoop_cons {randNum cummulativeProbability : UInt64} {it : ℕ}
    {p : FluffiServiceAndWeight} {rest : List FluffiServiceAndWeight}
    (hroom : cummulativeProbability.toNat + p.m_weight.toNat < 2 ^ 64 - 1) :
    partnerLoop randNum cummulativeProbability it (p :: rest) =
      if randNum.toNat ≤ cummulativeProbability.toNat + p.m_weight.toNat then .partner it
      else partnerLoop randNum (cummulativeProbability + p.m_weight.toUInt64) (it + 1) rest := by
  have hle : cummulativeProbability ≤ 18446744073709551615 := by
    rw [UInt64.le_iff_toNat_le]
    simp only [UInt64.reduceToNat]
    omega
  have hremaining : ¬ 18446744073709551615 - cummulativeProbability ≤ p.m_weight.toUInt64 := by
    rw [UInt64.le_iff_toNat_le, UInt64.toNat_sub_of_le _ _ hle, UInt32.toNat_toUInt64]
    simp only [UInt64.reduceToNat]
    omega
  have hadd : (cummulativeProbability + p.m_weight.toUInt64).toNat =
      cummulativeProbability.toNat + p.m_weight.toNat := by
    rw [UInt64.toNat_add, UInt32.toNat_toUInt64]
    omega
  rw [partnerLoop, if_neg hremaining, ← hadd]
  simp only [UInt64.le_iff_toNat_le]

/-- Before the position `it` the walk has passed the weights before it, so it stops exactly
in the share that the number lies in. -/
theorem partnerLoop_eq_at {s : CommPartnerManager} (hs : s.Consistent) {randNum : UInt64}
    {j : ℕ} (hj : randNum.toNat ∈ shareOf s.weights j) {it : ℕ} (hit : it ≤ j)
    {cummulativeProbability : UInt64}
    (hcum : cummulativeProbability.toNat = (s.weights.take it).sum) :
    partnerLoop randNum cummulativeProbability it (s.m_commDescriptorSet.drop it) = .partner j := by
  have hlen := lt_length_of_mem_shareOf hj
  rw [length_weights] at hlen
  have hlt : it < s.m_commDescriptorSet.length := by omega
  have hnext : (s.weights.take (it + 1)).sum =
      cummulativeProbability.toNat + s.m_commDescriptorSet[it].m_weight.toNat := by
    rw [sum_take_succ_of_lt (by simpa using hlt), hcum]
    simp [weights]
  have hbound := sum_take_le s.weights (it + 1)
  have hsum := hs.sum_lt
  rw [List.drop_eq_getElem_cons hlt, partnerLoop_cons (by omega), ← hnext]
  have hshare := mem_shareOf.mp hj
  rcases Nat.eq_or_lt_of_le hit with rfl | hbefore
  · exact if_pos hshare.2
  · have := sum_take_mono s.weights (i := it + 1) (j := j) hbefore
    rw [if_neg (by omega)]
    apply partnerLoop_eq_at hs hj hbefore
    rw [UInt64.toNat_add, UInt32.toNat_toUInt64, Nat.succ_eq_add_one, hnext]
    omega
termination_by j - it

theorem partnerLoop_eq_at_iff {s : CommPartnerManager} (hs : s.Consistent) {randNum : UInt64}
    (hr : randNum.toNat ∈ Finset.Icc 1 s.m_weigthSum.toNat) {i : ℕ} :
    partnerLoop randNum 0 0 s.m_commDescriptorSet = .partner i ↔
      randNum.toNat ∈ shareOf s.weights i := by
  rw [hs.sum_eq] at hr
  obtain ⟨j, hj, -⟩ := existsUnique_mem_shareOf hr
  have hloop : partnerLoop randNum 0 0 s.m_commDescriptorSet = .partner j :=
    partnerLoop_eq_at hs hj (Nat.zero_le j) (by simp)
  rw [hloop, PartnerLoop.partner.injEq]
  constructor
  · rintro rfl
    exact hj
  · intro hi
    exact shareOf_unique hj hi

theorem getNextPartner_eq {s : CommPartnerManager} {randNum : UInt64} (hsum : s.m_weigthSum ≠ 0)
    {i : ℕ} (hloop : partnerLoop randNum 0 0 s.m_commDescriptorSet = .partner i) :
    s.getNextPartner randNum =
      s.m_commDescriptorSet[i]?.map (·.m_serviceDescriptor.m_serviceHostAndPort) := by
  rw [getNextPartner, if_neg hsum, hloop]

theorem mem_shareOf_weights {s : CommPartnerManager} {i : ℕ} {p : FluffiServiceAndWeight}
    (hp : s.m_commDescriptorSet[i]? = some p) {r : ℕ} :
    r ∈ shareOf s.weights i ↔ (s.weights.take i).sum < r ∧
      r ≤ (s.weights.take i).sum + p.m_weight.toNat := by
  obtain ⟨hi, rfl⟩ := List.getElem?_eq_some_iff.mp hp
  rw [mem_shareOf, sum_take_succ_of_lt (by simpa using hi)]
  simp [weights]

/-- The numbers that the generator draws and that stop the walk at `i`. -/
def drawsFor (s : CommPartnerManager) (i : ℕ) : Finset ℕ :=
  (Finset.Icc 1 s.m_weigthSum.toNat).filter fun r =>
    partnerLoop (UInt64.ofNat r) 0 0 s.m_commDescriptorSet = .partner i

theorem drawsFor_eq {s : CommPartnerManager} (hs : s.Consistent) (i : ℕ) :
    s.drawsFor i = shareOf s.weights i := by
  have hlt := s.m_weigthSum.toNat_lt
  ext r
  rw [drawsFor, Finset.mem_filter]
  constructor
  · rintro ⟨hr, hloop⟩
    have hof : (UInt64.ofNat r).toNat = r :=
      UInt64.toNat_ofNat_of_lt' ((Finset.mem_Icc.mp hr).2.trans_lt hlt)
    rwa [partnerLoop_eq_at_iff hs (by rwa [hof]), hof] at hloop
  · intro hmem
    have hr := shareOf_subset _ _ hmem
    rw [← hs.sum_eq] at hr
    have hof : (UInt64.ofNat r).toNat = r :=
      UInt64.toNat_ofNat_of_lt' ((Finset.mem_Icc.mp hr).2.trans_lt hlt)
    exact ⟨hr, (partnerLoop_eq_at_iff hs (by rwa [hof])).mpr (by rwa [hof])⟩

theorem card_drawsFor {s : CommPartnerManager} (hs : s.Consistent) {i : ℕ}
    {p : FluffiServiceAndWeight} (hp : s.m_commDescriptorSet[i]? = some p) :
    (s.drawsFor i).card = p.m_weight.toNat := by
  obtain ⟨hi, rfl⟩ := List.getElem?_eq_some_iff.mp hp
  rw [drawsFor_eq hs, card_shareOf (by simpa using hi)]
  simp [weights]

/-- After any updates the sum is that of the last list, and every number that can be drawn
stops the walk in the one share it lies in: each partner at as many numbers as it weighs,
and neither by the exit nor behind the loop. -/
theorem getNextPartner_exact (lists : List (RepeatedPtrField FluffiServiceAndWeight)) :
    let s := updates lists
    s.m_commDescriptorSet = (lists.getLast?.map (·.elements)).getD [] ∧
    s.m_weigthSum.toNat = (s.m_commDescriptorSet.map (·.m_weight.toNat)).sum ∧
    (∀ randNum : UInt64, 1 ≤ randNum → randNum ≤ s.m_weigthSum →
      ∃ i p, s.m_commDescriptorSet[i]? = some p ∧
        (∀ j q, s.m_commDescriptorSet[j]? = some q →
          ((s.weights.take j).sum < randNum.toNat ∧
            randNum.toNat ≤ (s.weights.take j).sum + q.m_weight.toNat ↔ j = i)) ∧
        partnerLoop randNum 0 0 s.m_commDescriptorSet = .partner i ∧
        s.getNextPartner randNum = some p.m_serviceDescriptor.m_serviceHostAndPort) ∧
    (∀ i p, s.m_commDescriptorSet[i]? = some p → (s.drawsFor i).card = p.m_weight.toNat) ∧
    ∀ i p, s.m_commDescriptorSet[i]? = some p → p.m_weight = 0 → s.drawsFor i = ∅ := by
  intro s
  have hs : s.Consistent := updates_consistent lists
  refine ⟨updates_set lists, hs.sum_eq, ?_, fun i p hp => card_drawsFor hs hp, ?_⟩
  · intro randNum hpos hle
    rw [UInt64.le_iff_toNat_le] at hpos hle
    have hr : randNum.toNat ∈ Finset.Icc 1 s.m_weigthSum.toNat :=
      Finset.mem_Icc.mpr ⟨hpos, hle⟩
    have hne : s.m_weigthSum ≠ 0 := by
      rintro h
      rw [h] at hle
      exact absurd (Nat.le_trans hpos hle) (by decide)
    obtain ⟨i, hi, hunique⟩ := existsUnique_mem_shareOf (hs.sum_eq ▸ hr)
    have hlen : i < s.m_commDescriptorSet.length := by
      simpa using lt_length_of_mem_shareOf hi
    have hloop := (partnerLoop_eq_at_iff hs hr).mpr hi
    refine ⟨i, s.m_commDescriptorSet[i], List.getElem?_eq_getElem hlen, ?_, hloop, ?_⟩
    · intro j q hq
      rw [← mem_shareOf_weights hq]
      constructor
      · exact hunique j
      · rintro rfl
        exact hi
    · rw [getNextPartner_eq hne hloop, List.getElem?_eq_getElem hlen, Option.map_some]
  · intro i p hp hzero
    rw [← Finset.card_eq_zero, card_drawsFor hs hp, hzero]
    rfl

end CommPartnerManager

end Fluffi.Runner
