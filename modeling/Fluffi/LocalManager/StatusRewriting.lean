import Fluffi.LocalManager.StatusStrings

/-! When the status of an agent survives the rewriting of its string. The number of testcases of a
runner becomes a rate, if it is found, and the string has to fit the column. -/

namespace Fluffi.LocalManager

open Fluffi.Shared Fluffi.Systems Fluffi.Systems.LineStream

variable {ps qs : List StatusPair} {p q : StatusPair} {key value text : List Char} {rates : Rates}
  {agentType : AgentType}

/-! ### Rewriting -/

/-- What becomes of a pair that is not the first. -/
def rewritePair (rates : Rates) (p : StatusPair) : Option StatusPair :=
  if sinceLastRequest <+: p.1 then
    (stoi p.2).bind fun testcases => (toInt (testcases * 1000)).map fun thousandfold =>
      (perSecond, rates.toText thousandfold)
  else some p

theorem rewriteElement_firstElement (hclean : CleanPair p) (hne : p.1 ≠ []) :
    rewriteElement rates (firstElement p) = some (firstElement p) := by
  obtain ⟨c, key, hkey⟩ := List.exists_cons_of_ne_nil hne
  have hc : c ≠ ' ' := (hclean c (by simp [hkey])).1
  rw [rewriteElement, if_neg]
  intro h
  rw [firstElement, hkey] at h
  exact hc (List.cons.inj h).1

theorem take_laterElement_iff (p : StatusPair) :
    (laterElement p).take 32 = " TestcasesSinceLastStatusRequest".toList ↔
      sinceLastRequest <+: p.1 := by
  have hlength : sinceLastRequest.length = 31 := by decide
  have hcons : " TestcasesSinceLastStatusRequest".toList = ' ' :: sinceLastRequest := by decide
  rw [hcons, laterElement, List.take_succ_cons, List.cons.injEq, firstElement,
    ← @prefix_append_cons_iff _ sinceLastRequest p.1 (p.2 ++ [' ']) ' ' (by decide),
    List.prefix_iff_eq_take, hlength, eq_comm (a := sinceLastRequest)]
  exact and_iff_right rfl

theorem laterElement_perSecond (text : List Char) :
    laterElement (perSecond, text) = " TestcasesPerSecond ".toList ++ text ++ [' '] := by
  have hcons : " TestcasesPerSecond ".toList = ' ' :: (perSecond ++ [' ']) := by decide
  rw [hcons, laterElement, firstElement]
  simp only [List.cons_append, List.append_assoc, List.nil_append]

theorem rewriteElement_laterElement (hclean : CleanPair p) :
    rewriteElement rates (laterElement p) = (rewritePair rates p).map laterElement := by
  rw [rewriteElement, rewritePair]
  by_cases hstarts : sinceLastRequest <+: p.1
  · rw [if_pos ((take_laterElement_iff p).mpr hstarts), if_pos hstarts, splitString_singleton,
      splitOn_laterElement hclean, Option.map_bind]
    refine congrArg (Option.bind (stoi p.2)) (funext fun testcases => ?_)
    rw [Function.comp, Option.map_map, Option.map_eq_bind]
    refine congrArg (Option.bind _) (funext fun thousandfold => ?_)
    exact congrArg some (laterElement_perSecond _).symm
  · rw [if_neg ((take_laterElement_iff p).not.mpr hstarts), if_neg hstarts, Option.map_some]

def rewritePairs (rates : Rates) : List StatusPair → Option (List StatusPair)
  | [] => some []
  | p :: ps => (ps.mapM (rewritePair rates)).map (p :: ·)

theorem rewriteElements_succ (i : ℕ) (statusToStore : List Char) (es : List (List Char)) :
    rewriteElements rates (i + 1) statusToStore es =
      (es.mapM (rewriteElement rates)).map fun es => statusToStore ++ es.flatMap ('|' :: ·) := by
  induction es generalizing i statusToStore with
  | nil => simp [rewriteElements]
  | cons e es ih =>
    rw [rewriteElements, if_pos (Nat.succ_ne_zero i), List.mapM_cons]
    cases rewriteElement rates e with
    | none => rfl
    | some e' =>
      simp only [Option.bind_eq_bind, Option.bind_some, ih]
      cases es.mapM (rewriteElement rates) with
      | none => rfl
      | some es' =>
        simp only [Option.map_some, Option.bind_some, Option.pure_def, List.flatMap_cons,
          List.append_assoc, List.cons_append, List.nil_append]

theorem mapM_rewriteElement (h : ∀ p ∈ ps, CleanPair p) :
    (ps.map laterElement ++ [[]]).mapM (rewriteElement rates) =
      (ps.mapM (rewritePair rates)).map fun qs => qs.map laterElement ++ [[]] := by
  induction ps with
  | nil => rfl
  | cons p ps ih =>
    rw [List.forall_mem_cons] at h
    rw [List.map_cons, List.cons_append, List.mapM_cons, rewriteElement_laterElement h.1, ih h.2,
      List.mapM_cons]
    cases rewritePair rates p with
    | none => rfl
    | some q => cases ps.mapM (rewritePair rates) <;> rfl

theorem append_flatMap_bars (e : List Char) (es : List (List Char)) :
    e ++ (es ++ [[]]).flatMap ('|' :: ·) = joined '|' (e :: es) := by
  induction es generalizing e with
  | nil => simp [joined]
  | cons d es ih =>
    have hrest := ih d
    rw [List.cons_append, List.flatMap_cons, List.cons_append, hrest]
    simp [joined]

theorem rewriteElements_encoded (hclean : ∀ p ∈ ps, CleanPair p) (hne : ∀ p ∈ ps, p.1 ≠ []) :
    rewriteElements rates 0 [] (elementsOf ps ++ [[]]) =
      (rewritePairs rates ps).map encodeStatus := by
  cases ps with
  | nil => rfl
  | cons p ps =>
    rw [List.forall_mem_cons] at hclean hne
    have hfirst := @rewriteElement_firstElement p rates hclean.1 hne.1
    rw [elementsOf, List.cons_append, rewriteElements, if_neg (by simp)]
    simp only [hfirst, Option.bind_eq_bind, Option.bind_some, List.nil_append]
    rw [rewriteElements_succ, mapM_rewriteElement hclean.2, rewritePairs]
    simp only [Option.map_map]
    refine congrArg (Option.map · _) (funext fun qs => ?_)
    simp only [Function.comp, append_flatMap_bars, encodeStatus_eq, elementsOf]

/-- What is stored is the string of the rewritten pairs. -/
theorem storeStatus_runner (hclean : ∀ p ∈ ps, CleanPair p) (hne : ∀ p ∈ ps, p.1 ≠ []) :
    storeStatus .TestcaseRunner rates (encodeStatus ps) =
      (rewritePairs rates ps).map fun qs => addNewManagedInstanceStatus (encodeStatus qs) := by
  rw [storeStatus, if_pos rfl, splitString_singleton, splitOn_encodeStatus hclean,
    rewriteElements_encoded hclean hne, Option.map_map, Function.comp_def]

/-! ### The pairs that are stored -/

theorem rewritePairs_spec (h : rewritePairs rates ps = some qs) :
    (∀ p ∈ ps.head?, p ∈ qs) ∧ (∀ p ∈ ps.tail, ∃ q ∈ qs, rewritePair rates p = some q) ∧
      ∀ q ∈ qs, q ∈ ps.head? ∨ ∃ p ∈ ps.tail, rewritePair rates p = some q := by
  cases ps with
  | nil =>
    obtain rfl := Option.some.inj h
    simp
  | cons p ps =>
    obtain ⟨qs, hqs, rfl⟩ := Option.map_eq_some_iff.mp h
    obtain ⟨hfrom, hto⟩ := Slices.mapM_spec hqs
    refine ⟨by simp, fun p' hp' => ?_, fun q hq => ?_⟩
    · obtain ⟨q, hq, heq⟩ := hfrom p' hp'
      exact ⟨q, List.mem_cons_of_mem p hq, heq⟩
    · rcases List.mem_cons.mp hq with rfl | hq
      · exact .inl rfl
      · exact .inr (hto q hq)

theorem rewritePair_cases (h : rewritePair rates p = some q) :
    (¬ sinceLastRequest <+: p.1 ∧ q = p) ∨
      ∃ n, stoi p.2 = some n ∧ IsInt (n * 1000) ∧ q = (perSecond, rates.toText (n * 1000)) := by
  rw [rewritePair] at h
  split at h
  · obtain ⟨n, hn, hq⟩ := Option.bind_eq_some_iff.mp h
    obtain ⟨m, hm, rfl⟩ := Option.map_eq_some_iff.mp hq
    obtain ⟨hint, rfl⟩ := toInt_eq_some.mp hm
    exact .inr ⟨n, hn, hint, rfl⟩
  case isFalse hstarts => exact .inl ⟨hstarts, (Option.some.inj h).symm⟩

theorem integerOf_of_stoi {n : ℤ} (h : stoi text = some n) : integerOf text = some n := by
  rw [stoi_eq, Option.filter_eq_some_iff] at h
  exact h.1

theorem toRate_of_ne (h : p.1 ≠ sinceLastRequest) : toRate rates p = p := if_neg h

theorem toRate_sinceLastRequest {n : ℤ} (h : integerOf value = some n) :
    toRate rates (sinceLastRequest, value) = (perSecond, rates.toText (n * 1000)) := by
  rw [toRate, if_pos rfl, h, Option.getD_some]

theorem perSecond_ne : perSecond ≠ sinceLastRequest := by decide

theorem not_prefix_perSecond : ¬ sinceLastRequest <+: perSecond := by decide

theorem clean_perSecond : ∀ c ∈ perSecond, c ≠ ' ' ∧ c ≠ '|' := by
  have hall : (perSecond.all fun c => c ≠ ' ' && c ≠ '|') = true := by decide
  intro c hc
  simpa using List.all_eq_true.mp hall c hc

theorem toRate_key_ne (p : StatusPair) : (toRate rates p).1 ≠ sinceLastRequest := by
  rw [toRate]
  split
  · exact perSecond_ne
  case isFalse hne => exact hne

theorem mapM_eq_map {f : StatusPair → Option StatusPair} {g : StatusPair → StatusPair}
    (h : ∀ p ∈ ps, f p = some (g p)) : ps.mapM f = some (ps.map g) := by
  induction ps with
  | nil => rfl
  | cons p ps ih =>
    rw [List.forall_mem_cons] at h
    rw [List.mapM_cons, h.1, ih h.2]
    rfl

/-! ### When the status survives -/

namespace Status

variable {s : Status}

theorem clean_rates (n : ℤ) : CleanPair (perSecond, rates.toText n) := by
  intro c hc
  rcases List.mem_append.mp hc with hc | hc
  · exact clean_perSecond c hc
  · exact ⟨(rates.clean n c hc).1, (rates.clean n c hc).2.1⟩

theorem zero_notMem_rates (n : ℤ) : '\x00' ∉ perSecond ++ rates.toText n := by
  rw [List.mem_append, not_or]
  exact ⟨by decide, fun h => (rates.clean n _ h).2.2 rfl⟩

/-- A rewritten pair was there before, or is a rate. -/
theorem mem_rewritten (hqs : rewritePairs rates s.pairs = some qs) (hq : q ∈ qs) :
    q ∈ s.pairs ∨ ∃ n, q = (perSecond, rates.toText n) := by
  rcases (rewritePairs_spec hqs).2.2 q hq with hhead | ⟨p, hp, hrewrite⟩
  · exact .inl (List.mem_of_mem_head? hhead)
  · rcases rewritePair_cases hrewrite with ⟨-, rfl⟩ | ⟨n, -, -, rfl⟩
    · exact .inl (List.mem_of_mem_tail hp)
    · exact .inr ⟨_, rfl⟩

theorem noZero_rewritten (hzero : ∀ p ∈ s.pairs, '\x00' ∉ p.1 ++ p.2)
    (hqs : rewritePairs rates s.pairs = some qs) : ∀ q ∈ qs, '\x00' ∉ q.1 ++ q.2 := by
  intro q hq
  rcases mem_rewritten hqs hq with hq | ⟨n, rfl⟩
  · exact hzero q hq
  · exact zero_notMem_rates n

/-- Without zero characters, the rewritten pairs are decoded as they are. -/
theorem statusOf_rewritten (hzero : ∀ p ∈ s.pairs, '\x00' ∉ p.1 ++ p.2)
    (hqs : rewritePairs rates s.pairs = some qs) :
    statusOf (encodeStatus qs) = mapOf qs := by
  refine statusOf_encodeStatus (fun q hq => ?_) (noZero_rewritten hzero hqs)
  rcases mem_rewritten hqs hq with hq | ⟨n, rfl⟩
  · exact s.clean q hq
  · exact clean_rates n

theorem noZero_of_decoded (h : Decodes (encodeStatus s.pairs) s.pairs) :
    ∀ p ∈ s.pairs, '\x00' ∉ p.1 ++ p.2 :=
  fun p hp => noZero_statusOf _ p.1 p.2 ((h p.1 p.2).mpr hp)

/-- What is left of a runner's status says that the number of testcases was found. -/
theorem regular_of_stored (hzero : ∀ p ∈ s.pairs, '\x00' ∉ p.1 ++ p.2)
    (hqs : rewritePairs rates s.pairs = some qs)
    (hmap : ∀ key value, mapOf qs key = some value ↔ (key, value) ∈ s.pairs.map (toRate rates)) :
    s.Regular .TestcaseRunner rates := by
  obtain ⟨hhead, htail, hto⟩ := rewritePairs_spec hqs
  have hfirst : ∀ p ∈ s.pairs.head?, p.1 ≠ sinceLastRequest := by
    intro p hp hkey
    obtain ⟨value, hvalue, -⟩ := mapOf_of_mem (hhead p hp)
    obtain ⟨r, -, hr⟩ := List.mem_map.mp ((hmap _ _).mp hvalue)
    exact toRate_key_ne r ((congrArg Prod.fst hr).trans hkey)
  have hlater : ∀ value, (sinceLastRequest, value) ∈ s.pairs →
      (sinceLastRequest, value) ∈ s.pairs.tail := by
    intro value hmem
    cases hpairs : s.pairs with
    | nil => simp [hpairs] at hmem
    | cons p ps =>
      rw [hpairs] at hmem hfirst
      refine (List.mem_cons.mp hmem).resolve_left fun heq => ?_
      exact hfirst p rfl (congrArg Prod.fst heq).symm
  refine ⟨hzero, fun _ => hfirst, fun _ p hp hstarts => ?_, fun _ value n hmem hn => ?_,
    fun _ value n other hmem hother hn => ?_⟩
  · by_contra hkey
    -- the pair should have stayed as it is, but its element was rewritten
    have hstays : mapOf qs p.1 = some p.2 := by
      rw [hmap, ← @toRate_of_ne p rates hkey]
      exact List.mem_map_of_mem (List.mem_of_mem_tail hp)
    rcases hto _ (mem_of_mapOf hstays) with hpHead | ⟨r, hr, hrewrite⟩
    · have hdistinct := s.distinct
      cases hpairs : s.pairs with
      | nil => simp [hpairs] at hp
      | cons p' ps =>
        rw [hpairs] at hp hpHead hdistinct
        obtain rfl : p' = p := by simpa using hpHead
        rw [List.map_cons, List.nodup_cons] at hdistinct
        exact hdistinct.1 (List.mem_map_of_mem hp)
    · rcases rewritePair_cases hrewrite with ⟨hnot, rfl⟩ | ⟨n, -, -, heq⟩
      · exact hnot hstarts
      · rw [congrArg Prod.fst heq] at hstarts
        exact not_prefix_perSecond hstarts
  · obtain ⟨q, -, hrewrite⟩ := htail _ (hlater value hmem)
    rcases rewritePair_cases hrewrite with ⟨hnot, -⟩ | ⟨m, hm, hint, -⟩
    · exact absurd List.prefix_rfl hnot
    · obtain rfl := Option.some.inj ((integerOf_of_stoi hm).symm.trans hn)
      exact hint
  · have hrate : mapOf qs perSecond = some (rates.toText (n * 1000)) := by
      rw [hmap, ← toRate_sinceLastRequest hn]
      exact List.mem_map_of_mem hmem
    have hkept : mapOf qs perSecond = some other := by
      rw [hmap, ← @toRate_of_ne (perSecond, other) rates perSecond_ne]
      exact List.mem_map_of_mem hother
    exact Option.some.inj (hkept.symm.trans hrate)

/-- The number of testcases is found and made a rate. -/
theorem rewritePairs_of_regular (h : s.Regular .TestcaseRunner rates)
    (hvalue : ∀ value, (sinceLastRequest, value) ∈ s.pairs → (integerOf value).isSome = true) :
    rewritePairs rates s.pairs = some (s.pairs.map (toRate rates)) := by
  have htail : ∀ p ∈ s.pairs.tail, rewritePair rates p = some (toRate rates p) := by
    rintro ⟨key, value⟩ hp
    by_cases hkey : key = sinceLastRequest
    · subst hkey
      have hmem := List.mem_of_mem_tail hp
      obtain ⟨n, hn⟩ := Option.isSome_iff_exists.mp (hvalue value hmem)
      have hint : IsInt (n * 1000) := h.fits rfl value n hmem hn
      have hstoi : stoi value = some n := by
        rw [stoi_eq, hn, Option.filter_some, if_pos]
        rw [decide_eq_true_eq]
        obtain ⟨hlow, hhigh⟩ := hint
        exact ⟨by omega, by omega⟩
      rw [rewritePair, if_pos List.prefix_rfl, toRate_sinceLastRequest hn, hstoi,
        Option.bind_some, toInt, if_pos hint, Option.map_some]
    · have hnot : ¬ sinceLastRequest <+: key := fun hstarts => hkey (h.notLonger rfl _ hp hstarts)
      rw [rewritePair, if_neg hnot, @toRate_of_ne (key, value) rates hkey]
  have hhead := h.notFirst rfl
  cases hpairs : s.pairs with
  | nil => rfl
  | cons p ps =>
    rw [hpairs] at htail hhead
    rw [List.tail_cons] at htail
    rw [rewritePairs, mapM_eq_map htail, List.map_cons, Option.map_some,
      @toRate_of_ne p rates (hhead p rfl)]

theorem Survives.regular (h : s.Survives agentType rates) : s.Regular agentType rates := by
  have hzero := noZero_of_decoded h.decoded
  by_cases hrunner : agentType = .TestcaseRunner
  · subst hrunner
    obtain ⟨text, hstore, hdecodes⟩ := h.stored
    rw [storeStatus_runner s.clean s.nonempty] at hstore
    obtain ⟨qs, hqs, hstored⟩ := Option.map_eq_some_iff.mp hstore
    obtain ⟨-, rfl⟩ :=
      (addNewManagedInstanceStatus_eq_some_iff (noZero_rewritten hzero hqs)).mp hstored
    refine regular_of_stored hzero hqs fun key value => ?_
    rw [← statusOf_rewritten hzero hqs]
    exact hdecodes key value
  · exact ⟨hzero, fun hr => absurd hr hrunner, fun hr => absurd hr hrunner,
      fun hr => absurd hr hrunner, fun hr => absurd hr hrunner⟩

/-- The string that was stored is that of the expected pairs, and fits the column. -/
theorem Survives.length_le (h : s.Survives agentType rates)
    (hvalue : agentType = .TestcaseRunner → ∀ value, (sinceLastRequest, value) ∈ s.pairs →
      (integerOf value).isSome = true) :
    (encodeStatus (s.storedPairs agentType rates)).length ≤ 1000 := by
  have hregular := h.regular
  obtain ⟨text, hstore, -⟩ := h.stored
  by_cases hrunner : agentType = .TestcaseRunner
  · subst hrunner
    have hqs := rewritePairs_of_regular hregular (hvalue rfl)
    rw [storeStatus_runner s.clean s.nonempty, hqs, Option.map_some, Option.some.injEq,
      addNewManagedInstanceStatus_eq_some_iff (noZero_rewritten hregular.noZero hqs)] at hstore
    rw [storedPairs, if_pos rfl]
    exact hstore.1
  · rw [storeStatus, if_neg hrunner, Option.some.injEq,
      addNewManagedInstanceStatus_eq_some_iff hregular.noZero] at hstore
    rw [storedPairs, if_neg hrunner]
    exact hstore.1

/-- The rates of an interval of one second. -/
def everySecond : Rates where
  toText n := Nat.toDigits 10 (n / 1000).toNat
  clean n c hc := by
    have hdigit : c.isDigit = true := Nat.isDigit_of_mem_toDigits (by decide) (by decide) hc
    refine ⟨?_, ?_, ?_⟩ <;> rintro rfl <;> exact absurd hdigit (by decide)

theorem clean_of_all (h : (ps.all fun p => (p.1 ++ p.2).all fun c => c ≠ ' ' && c ≠ '|') = true) :
    ∀ p ∈ ps, CleanPair p := by
  intro p hp c hc
  simpa using List.all_eq_true.mp (List.all_eq_true.mp h p hp) c hc

def runner : Status where
  pairs := [("SysCPUUtil".toList, "12.5".toList), (sinceLastRequest, "500".toList)]
  distinct := by decide
  nonempty := by decide
  clean := clean_of_all (by decide)

end Status

end Fluffi.LocalManager
