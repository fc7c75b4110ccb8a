import IcebergTTX.Pages.ScenarioBuilder

/-!
# The ids of the scenario builder

An id that the builder writes is a slug: letters and digits with single underscores between
them.  The server strips what the builder saves, and that changes nothing about the slug.

Main results:

- Definition {lit}`IsId`: the ids that the builder leaves alone.
- Theorem {lit}`normalizeId_strip`: the id of a text is the one of the stripped text.
- Theorem {lit}`nextSequentialId_not_mem`: the next id of a series is a new one.
-/

namespace IcebergTTX

open Text

variable {id text fallback stem : String} {c : Char}

/-! ## Characters -/

/-- The characters of ids are small letters and digits. -/
theorem isIdChar_iff :
    isIdChar c ↔ (97 ≤ c.toNat ∧ c.toNat ≤ 122) ∨ (48 ≤ c.toNat ∧ c.toNat ≤ 57) := by
  simp only [isIdChar, decide_eq_true_eq, Char.le_def, UInt32.le_iff_toNat_le]
  exact Iff.rfl

/-- The separator is none of them. -/
theorem isIdChar_separator : isIdChar '_' = false := by
  decide

/-- A character that gives no character of an id. -/
def LeavesNothing (c : Char) : Prop :=
  ∀ d ∈ lowerChar c, isIdChar d = false

/-- What is no capital letter is lowered to itself. -/
theorem toLower_eq_self (h : ¬ (65 ≤ c.toNat ∧ c.toNat ≤ 90)) : c.toLower = c := by
  unfold Char.toLower
  refine dif_neg fun hupper => h ?_
  simpa [UInt32.le_iff_toNat_le] using hupper

/-- The characters that lower case leaves alone. -/
theorem lowerChar_eq_self (hupper : ¬ (65 ≤ c.toNat ∧ c.toNat ≤ 90)) (hkelvin : c.toNat ≠ 0x212a)
    (hdotted : c.toNat ≠ 0x130) : lowerChar c = [c] := by
  rw [lowerChar, if_neg hkelvin, if_neg hdotted, toLower_eq_self hupper]

/-- The characters of ids are lowered to themselves. -/
theorem lowerChar_of_isIdChar (h : isIdChar c) : lowerChar c = [c] := by
  rw [isIdChar_iff] at h
  exact lowerChar_eq_self (by omega) (by omega) (by omega)

/-- So is the separator. -/
theorem lowerChar_separator : lowerChar '_' = ['_'] := by
  decide

/-- A character before the digits or after the letters leaves nothing, but for two. -/
theorem leavesNothing_of_toNat (hspace : c.toNat < 48 ∨ 122 < c.toNat)
    (hkelvin : c.toNat ≠ 0x212a) (hdotted : c.toNat ≠ 0x130) : LeavesNothing c := by
  intro d hd
  rw [lowerChar_eq_self (by omega) hkelvin hdotted, List.mem_singleton] at hd
  subst hd
  rw [← Bool.not_eq_true, isIdChar_iff]
  omega

/-- What is stripped leaves nothing. -/
theorem leavesNothing_of_isStripped (h : isStripped c) : LeavesNothing c := by
  simp only [isStripped, decide_eq_true_eq, List.mem_cons, List.not_mem_nil, or_false] at h
  exact leavesNothing_of_toNat (by omega) (by omega) (by omega)

/-- So does what is trimmed. -/
theorem leavesNothing_of_isTrimmed (h : isTrimmed c) : LeavesNothing c := by
  simp only [isTrimmed, decide_eq_true_eq, List.mem_cons, List.not_mem_nil, or_false] at h
  exact leavesNothing_of_toNat (by omega) (by omega) (by omega)

/-! ## Texts -/

/-- The slug of a text, in lower case. -/
def idSlug (cs : List Char) : List Char :=
  slug isIdChar '_' (cs.flatMap lowerChar)

/-- What leaves nothing may be dropped at the start. -/
theorem idSlug_dropWhile {p : Char → Bool} (hp : ∀ c, p c → LeavesNothing c) (cs : List Char) :
    idSlug (cs.dropWhile p) = idSlug cs := by
  induction cs with
  | nil => rfl
  | cons c rest ih =>
      by_cases hc : p c
      · rw [List.dropWhile_cons_of_pos hc, ih]
        unfold idSlug
        rw [List.flatMap_cons, slug_append_left (hp c hc)]
      · rw [List.dropWhile_cons_of_neg hc]

/-- Or at the end. -/
theorem idSlug_rdropWhile {p : Char → Bool} (hp : ∀ c, p c → LeavesNothing c) (cs : List Char) :
    idSlug (cs.rdropWhile p) = idSlug cs := by
  induction cs using List.reverseRecOn with
  | nil => rfl
  | append_singleton rest c ih =>
      by_cases hc : p c
      · rw [List.rdropWhile_concat_pos _ _ _ hc, ih]
        unfold idSlug
        rw [List.flatMap_append, List.flatMap_singleton, slug_append_right (hp c hc)]
      · rw [List.rdropWhile_concat_neg _ _ _ hc]

/-- A text may be stripped before. -/
theorem idSlug_strip (text : String) : idSlug (strip text).toList = idSlug text.toList := by
  have hends : (strip text).toList =
      (text.toList.dropWhile isStripped).rdropWhile isStripped := String.toList_ofList
  rw [hends, idSlug_rdropWhile fun _ => leavesNothing_of_isStripped,
    idSlug_dropWhile fun _ => leavesNothing_of_isStripped]

/-- Or trimmed. -/
theorem idSlug_jsTrim (text : String) : idSlug (jsTrim text).toList = idSlug text.toList := by
  rw [jsTrim, String.toList_ofList, idSlug_rdropWhile fun _ => leavesNothing_of_isTrimmed,
    idSlug_dropWhile fun _ => leavesNothing_of_isTrimmed]

/-- {lit}`normalizeId` gives the slug, or the fallback where nothing is left. -/
theorem normalizeId_eq (text fallback : String) :
    normalizeId text fallback = orText (String.ofList (idSlug text.toList)) fallback := by
  rw [← idSlug_jsTrim]
  rfl

/-- The id of a text is the one of the stripped text. -/
theorem normalizeId_strip (text fallback : String) :
    normalizeId (strip text) fallback = normalizeId text fallback := by
  rw [normalizeId_eq, normalizeId_eq, idSlug_strip]

/-! ## Ids -/

/-- The ids that the builder leaves alone. -/
structure IsId (id : String) : Prop where
  slug : IsSlug isIdChar '_' id.toList
  given : id ≠ ""

/-- The characters of a slug are in lower case. -/
theorem flatMap_lowerChar_of_isSlug {cs : List Char} (h : ∀ c ∈ cs, isIdChar c ∨ c = '_') :
    cs.flatMap lowerChar = cs := by
  induction cs with
  | nil => rfl
  | cons c rest ih =>
      rw [List.forall_mem_cons] at h
      have hc : lowerChar c = [c] := by
        rcases h.1 with hid | rfl
        · exact lowerChar_of_isIdChar hid
        · exact lowerChar_separator
      rw [List.flatMap_cons, hc, ih h.2, List.singleton_append]

/-- An id is its own slug. -/
theorem IsId.idSlug (h : IsId id) : IcebergTTX.idSlug id.toList = id.toList := by
  rw [IcebergTTX.idSlug, flatMap_lowerChar_of_isSlug h.slug.symbols]
  exact (slug_eq_self_iff isIdChar_separator).mpr h.slug

/-- An id is normalized to itself. -/
theorem IsId.normalizeId (h : IsId id) (fallback : String) :
    IcebergTTX.normalizeId id fallback = id := by
  rw [normalizeId_eq, h.idSlug, String.ofList_toList, orText, if_neg h.given]

/-- What the builder makes of a text it leaves alone, unless that is the fallback. -/
theorem isId_or_eq_fallback (text fallback : String) :
    IsId (normalizeId text fallback) ∨ normalizeId text fallback = fallback := by
  rw [normalizeId_eq, orText]
  split
  · exact .inr rfl
  · rename_i hgiven
    refine .inl ⟨?_, hgiven⟩
    rw [String.toList_ofList]
    exact isSlug_slug isIdChar_separator _

/-- What is normalized is an id, if the fallback is one. -/
theorem isId_normalizeId (h : IsId fallback) (text : String) :
    IsId (normalizeId text fallback) := by
  rcases isId_or_eq_fallback text fallback with hid | hnone
  · exact hid
  · rw [hnone]
    exact h

/-- The ids that are kept are those that the builder leaves alone. -/
theorem normalizeId_eq_self_iff (hfallback : IsId fallback) :
    normalizeId id fallback = id ↔ IsId id := by
  refine ⟨fun heq => ?_, fun h => h.normalizeId fallback⟩
  rw [← heq]
  exact isId_normalizeId hfallback id

/-- The characters of ids are not stripped, nor is the separator. -/
theorem not_isStripped_of_symbol (h : isIdChar c ∨ c = '_') : ¬ isStripped c := by
  rcases h with hid | rfl
  · intro hstripped
    have hnothing := leavesNothing_of_isStripped hstripped c (by
      rw [lowerChar_of_isIdChar hid]
      exact List.mem_singleton.mpr rfl)
    exact Bool.false_ne_true (hnothing.symm.trans hid)
  · decide

/-- An id has nothing to strip. -/
theorem IsId.strip (h : IsId id) : IcebergTTX.strip id = id := by
  have hnone : ∀ c ∈ id.toList, ¬ isStripped c :=
    fun c hc => not_isStripped_of_symbol (h.slug.symbols c hc)
  have hfront : id.toList.dropWhile isStripped = id.toList := by
    cases hlist : id.toList with
    | nil => rfl
    | cons c rest => exact List.dropWhile_cons_of_neg (hnone c (by rw [hlist]; simp))
  have hback : id.toList.rdropWhile isStripped = id.toList :=
    List.rdropWhile_eq_self_iff.mpr fun hne => hnone _ (List.getLast_mem hne)
  show String.ofList ((id.toList.dropWhile isStripped).rdropWhile isStripped) = id
  rw [hfront, hback, String.ofList_toList]

/-- Of the empty text nothing is left. -/
theorem strip_empty : strip "" = "" :=
  rfl

/-- What is not blank is not empty. -/
theorem ne_empty_of_strip {text : String} (h : strip text ≠ "") : text ≠ "" := by
  rintro rfl
  exact h strip_empty

/-- The builder writes the stripped text for an id exactly when it is one. -/
theorem normalizeId_eq_strip_iff {text fallback : String} (hfallback : IsId fallback) :
    normalizeId text fallback = strip text ↔ IsId (strip text) := by
  rw [← normalizeId_strip]
  exact normalizeId_eq_self_iff hfallback

/-- Stripping and normalizing a text agree exactly on ids. -/
theorem isId_strip_iff {text : String} (hgiven : strip text ≠ "") :
    normalizeId text "" = strip text ↔ IsId (strip text) := by
  constructor
  · intro heq
    rcases isId_or_eq_fallback text "" with hid | hnone
    · rwa [heq] at hid
    · exact absurd (heq.symm.trans hnone) hgiven
  · intro hid
    rw [← normalizeId_strip, hid.normalizeId]

/-! ## Series of ids -/

/-- A number is written with two digits at least. -/
theorem toList_padStart (n : Nat) :
    (padStart n).toList = List.replicate (2 - (Nat.toDigits 10 n).length) '0' ++
      Nat.toDigits 10 n := by
  have hdigits : (toString n).toList = Nat.toDigits 10 n := Nat.toList_repr
  rw [padStart, String.toList_ofList, List.leftpad, hdigits]

/-- A number is written in characters of ids. -/
theorem isIdChar_of_mem_padStart {n : Nat} (h : c ∈ (padStart n).toList) : isIdChar c := by
  rw [toList_padStart, List.mem_append] at h
  rcases h with hzero | hdigit
  · rw [List.eq_of_mem_replicate hzero]
    decide
  · have hc : c.isDigit := Nat.isDigit_of_mem_toDigits (by decide) (by decide) hdigit
    rw [isIdChar_iff]
    refine .inr ?_
    simpa [Char.isDigit, UInt32.le_iff_toNat_le] using hc

/-- Two numbers are written differently. -/
theorem padStart_injective {m n : Nat} (h : padStart m = padStart n) : m = n := by
  have hvalue (k : Nat) : Nat.ofDigitChars 10 (padStart k).toList 0 = k := by
    rw [toList_padStart, Nat.ofDigitChars_append, Nat.ofDigitChars_replicate_zero, Nat.mul_zero,
      Nat.ofDigitChars_ten_toDigits]
  rw [← hvalue m, h, hvalue n]

/-- Two ids in sequence differ. -/
theorem sequentialId_injective {m n : Nat} (h : sequentialId stem m = sequentialId stem n) :
    m = n := by
  refine padStart_injective ?_
  have hlists := congrArg String.toList h
  rw [sequentialId, sequentialId, String.toList_append, String.toList_append,
    String.toList_append, String.toList_append, List.append_cancel_left_eq] at hlists
  exact String.toList_injective hlists

/-- The ids of a series are ids, where its stem is a word. -/
theorem isId_sequentialId (hstem : stem.toList.all isIdChar) (hgiven : stem ≠ "") (n : Nat) :
    IsId (sequentialId stem n) where
  slug := by
    have hlist : (sequentialId stem n).toList = stem.toList ++ '_' :: (padStart n).toList := by
      rw [sequentialId, String.toList_append, String.toList_append, List.append_assoc]
      rfl
    rw [hlist]
    refine isSlug_join isIdChar_separator (List.all_eq_true.mp hstem)
      (fun c => isIdChar_of_mem_padStart) ?_ ?_
    · exact fun hnone => hgiven (String.toList_injective hnone)
    · rw [toList_padStart]
      exact List.append_ne_nil_of_right_ne_nil _ Nat.toDigits_ne_nil
  given := by
    intro h
    have hlength := congrArg String.length h
    simp [sequentialId] at hlength

/-- The loop has come to an id of the series, and to a new one where it had tries enough. -/
theorem nextFrom_eq (stem : String) (used : List String) (fuel n : Nat) :
    ∃ k, nextFrom stem used fuel n = sequentialId stem k ∧
      (nextFrom stem used fuel n ∈ used →
        ∀ i, n ≤ i → i ≤ n + fuel → sequentialId stem i ∈ used) := by
  induction fuel generalizing n with
  | zero =>
      refine ⟨n, rfl, fun hused i hle hge => ?_⟩
      obtain rfl : i = n := Nat.le_antisymm hge hle
      exact hused
  | succ fuel ih =>
      rw [nextFrom]
      split
      · rename_i hused
        obtain ⟨k, hk, hall⟩ := ih (n + 1)
        refine ⟨k, hk, fun hnext i hle hge => ?_⟩
        rcases Nat.eq_or_lt_of_le hle with rfl | hlt
        · exact hused
        · exact hall hnext i hlt (by omega)
      · rename_i hnew
        exact ⟨n, rfl, fun hused => absurd hused hnew⟩

/-- The next id of a series is an id that is not in use. -/
theorem nextSequentialId_not_mem (stem : String) (used : List String) :
    nextSequentialId stem used ∉ used := by
  intro hused
  obtain ⟨-, -, hall⟩ := nextFrom_eq stem used used.length 1
  have hnodup : ((List.range (used.length + 1)).map fun i => sequentialId stem (i + 1)).Nodup :=
    List.nodup_range.map fun i j hij => Nat.succ.inj (sequentialId_injective hij)
  have hsub : ((List.range (used.length + 1)).map fun i => sequentialId stem (i + 1)) ⊆ used := by
    intro id hid
    obtain ⟨i, hi, rfl⟩ := List.mem_map.mp hid
    rw [List.mem_range] at hi
    exact hall hused (i + 1) (by omega) (by omega)
  have hlength := (hnodup.subperm hsub).length_le
  rw [List.length_map, List.length_range] at hlength
  exact Nat.not_succ_le_self _ hlength

/-- The next id of a series is an id, where its stem is a word. -/
theorem isId_nextSequentialId (hstem : stem.toList.all isIdChar) (hgiven : stem ≠ "")
    (used : List String) : IsId (nextSequentialId stem used) := by
  obtain ⟨k, hk, -⟩ := nextFrom_eq stem used used.length 1
  rw [nextSequentialId, hk]
  exact isId_sequentialId hstem hgiven k

/-- The id that a new team gets is an id. -/
theorem isId_nextTeamId (form : Form) : IsId form.nextTeamId :=
  isId_nextSequentialId (by decide) (by decide) _

/-- So is that of a new inject. -/
theorem isId_nextInjectId (form : Form) : IsId form.nextInjectId :=
  isId_nextSequentialId (by decide) (by decide) _

/-- What is read of the elements of a list is as it was when it is of each of them. -/
theorem map_mapIdx_eq_map_iff {α β γ : Type} {f : Nat → α → β} {g : β → γ} {g' : α → γ}
    {l : List α} :
    (l.mapIdx f).map g = l.map g' ↔ ∀ i a, l[i]? = some a → g (f i a) = g' a := by
  constructor
  · intro heq i a ha
    have hi := congrArg (·[i]?) heq
    simpa [List.getElem?_mapIdx, ha] using hi
  · intro h
    refine List.ext_getElem? fun i => ?_
    rw [List.getElem?_map, List.getElem?_mapIdx, List.getElem?_map]
    cases ha : l[i]? with
    | none => simp
    | some a => simp [h i a ha]

/-- The fallbacks for injects are ids. -/
theorem isId_inject (index : Nat) : IsId (sequentialId "inject" index) :=
  isId_sequentialId (by decide) (by decide) index

/-- So are those for options. -/
theorem isId_opt (index : Nat) : IsId (sequentialId "opt" index) :=
  isId_sequentialId (by decide) (by decide) index

end IcebergTTX
