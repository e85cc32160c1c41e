import Mathlib.Data.List.TakeWhile
import PipelineAtlas.Proofs.Text.Word
import PipelineAtlas.Text.Lowercase

/-! The tokens of a text. Neither trimming nor lower case changes how many there are. -/
namespace PipelineAtlas.Text

variable {s : List Char}

theorem tokensFrom_visible (visible : ∀ c ∈ s, isBlank c = false) (begun rest : List Char) :
    tokensFrom begun (s ++ rest) = tokensFrom (s.reverse ++ begun) rest := by
  induction s generalizing begun with
  | nil => rfl
  | cons c s ih =>
    obtain ⟨first,later⟩ := List.forall_mem_cons.mp visible
    simp [tokensFrom,first,ih later]

theorem tokensFrom_blanks (blanks : ∀ c ∈ s, isBlank c = true) (some : s ≠ [])
    (begun rest : List Char) :
    tokensFrom begun (s ++ rest) = tokensFrom begun [] ++ tokensFrom [] rest := by
  induction s generalizing begun with
  | nil => exact absurd rfl some
  | cons c s ih =>
    obtain ⟨first,later⟩ := List.forall_mem_cons.mp blanks
    have behind : tokensFrom [] (s ++ rest) = tokensFrom [] rest := by
      cases s with
      | nil => rfl
      | cons d s => exact ih later (List.cons_ne_nil d s) []
    cases begun <;> simp [tokensFrom,first,behind]

theorem tokensFrom_begun {begun : List Char} (some : begun ≠ []) (s : List Char) :
    ∃ t ts, tokensFrom begun s = (begun.reverse ++ t) :: ts := by
  induction s generalizing begun with
  | nil => exact ⟨[],[],by simp [tokensFrom,some]⟩
  | cons c s ih =>
    cases blank : isBlank c with
    | true => exact ⟨[],tokensFrom [] s,by simp [tokensFrom,blank,some]⟩
    | false =>
      obtain ⟨t,ts,found⟩ := ih (List.cons_ne_nil c begun)
      exact ⟨c :: t,ts,by simp [tokensFrom,blank,found]⟩

theorem tokens_cons {c : Char} (visible : isBlank c = false) (s : List Char) :
    ∃ t ts, tokens (c :: s) = (c :: t) :: ts := by
  obtain ⟨t,ts,found⟩ := tokensFrom_begun (List.cons_ne_nil c []) s
  exact ⟨t,ts,by simpa [tokens,tokensFrom,visible] using found⟩

theorem visible_of_mem_tokensFrom {begun t : List Char} (visible : ∀ c ∈ begun, isBlank c = false)
    (member : t ∈ tokensFrom begun s) : t ≠ [] ∧ ∀ c ∈ t, isBlank c = false := by
  have turned (some : ¬ begun.isEmpty = true) :
      begun.reverse ≠ [] ∧ ∀ c ∈ begun.reverse, isBlank c = false :=
    ⟨by simpa using some,fun c inside => visible c (List.mem_reverse.mp inside)⟩
  induction s generalizing begun with
  | nil =>
    unfold tokensFrom at member
    split at member
    next => cases member
    next some => exact List.mem_singleton.mp member ▸ turned some
  | cons c s ih =>
    unfold tokensFrom at member
    split at member
    next =>
      split at member
      next => exact ih (by simp) member (by simp)
      next some =>
        rcases List.mem_cons.mp member with rfl | later
        · exact turned some
        · exact ih (by simp) later (by simp)
    next noBlank =>
      have longer : ∀ d ∈ c :: begun, isBlank d = false :=
        List.forall_mem_cons.mpr ⟨by simpa using noBlank,visible⟩
      exact ih longer member fun _ => ⟨by simp,fun d inside => longer d (List.mem_reverse.mp inside)⟩

theorem visible_of_mem_tokens {t : List Char} (member : t ∈ tokens s) :
    t ≠ [] ∧ ∀ c ∈ t, isBlank c = false :=
  visible_of_mem_tokensFrom (by simp) member

theorem length_tokens_of_visible (visible : ∀ c ∈ s, isBlank c = false) :
    (tokens s).length ≤ 1 := by
  have whole := tokensFrom_visible visible [] []
  rw [List.append_nil,List.append_nil] at whole
  rw [tokens,whole,tokensFrom]
  split <;> simp

theorem tokens_trimLeft (s : List Char) : tokens (trimLeft s) = tokens s := by
  induction s with
  | nil => rfl
  | cons c s ih =>
    cases blank : isBlank c with
    | true => simpa [trimLeft,tokens,tokensFrom,blank] using ih
    | false => simp [trimLeft,blank]

theorem tokensFrom_append_blanks {blanks : List Char} (blank : ∀ c ∈ blanks, isBlank c = true)
    (begun s : List Char) : tokensFrom begun (s ++ blanks) = tokensFrom begun s := by
  induction s generalizing begun with
  | nil =>
    cases blanks with
    | nil => rfl
    | cons c blanks =>
      have ended := tokensFrom_blanks blank (List.cons_ne_nil c blanks) begun []
      rw [List.append_nil] at ended
      rw [List.nil_append,ended]
      exact List.append_nil _
  | cons c s ih => simp only [List.cons_append,tokensFrom,ih]

theorem trim_blanks_append {blanks : List Char} (blank : ∀ c ∈ blanks, isBlank c = true)
    (s : List Char) : trim (blanks ++ s) = trim s := by
  rw [trim,trim,trimLeft,trimLeft,List.dropWhile_append_of_pos blank]

theorem trim_append_blanks {blanks : List Char} (blank : ∀ c ∈ blanks, isBlank c = true)
    (s : List Char) : trim (s ++ blanks) = trim s := by
  have gone : trimRight (trimLeft s ++ blanks) = trimRight (trimLeft s) := by
    simp only [trimRight,List.reverse_append]
    rw [List.dropWhile_append_of_pos fun c inside => blank c (List.mem_reverse.mp inside)]
  cases all : trimLeft s with
  | nil =>
    have first : ∀ c ∈ s, isBlank c = true := List.dropWhile_eq_nil_iff.mp all
    have none : trimLeft (s ++ blanks) = [] :=
      List.dropWhile_eq_nil_iff.mpr (List.forall_mem_append.mpr ⟨first,blank⟩)
    rw [trim,trim,none,all]
  | cons c rest =>
    have kept : trimLeft (s ++ blanks) = trimLeft s ++ blanks := by
      have some : (List.dropWhile isBlank s).isEmpty = false := by
        rw [show List.dropWhile isBlank s = c :: rest from all]
        rfl
      unfold trimLeft
      rw [List.dropWhile_append,if_neg (by simp [some])]
    rw [trim,trim,kept,gone]

theorem tokens_trim (s : List Char) : tokens (trim s) = tokens s := by
  obtain ⟨blanks,split,blank⟩ := exists_trimRight (trimLeft s)
  rw [← tokens_trimLeft s,split,tokens,tokens,tokensFrom_append_blanks blank]
  rfl

private def blankCodes : List Nat := [9,10,11,12,13,32] ++ wideBlanks

private theorem mem_blankCodes {c : Char} (blank : isBlank c = true) : c.toNat ∈ blankCodes := by
  by_cases ascii : c.toNat < 128
  · simp only [isBlank,Bool.or_eq_true,Bool.and_eq_true,decide_eq_true_eq,beq_iff_eq] at blank
    simp only [blankCodes,List.mem_append,List.mem_cons,List.not_mem_nil,or_false]
    omega
  · exact List.mem_append_right _ (mem_wideBlanks blank ascii)

/-- No run of capitals has a blank in it, or under it. -/
private theorem caseRuns_apart : ∀ r ∈ caseRuns, ∀ n ∈ blankCodes,
    ¬ (r.first ≤ n ∧ n ≤ r.last) ∧ ¬ (r.first + r.shift ≤ n ∧ n ≤ r.last + r.shift) := by
  decide +kernel

private theorem toNat_ofNat (n : Nat) : (Char.ofNat n).toNat = n ∨ (Char.ofNat n).toNat = 0 := by
  by_cases valid : n.isValidChar
  · have code : Char.ofNat n = Char.ofNatAux n valid := dif_pos valid
    exact .inl (congrArg Char.toNat code)
  · have zero : Char.ofNat n = Char.ofNat 0 := dif_neg valid
    exact .inr (congrArg Char.toNat zero)

theorem isBlank_toLower (c : Char) : isBlank c.toLower = isBlank c := by
  by_cases ascii : c.toNat < 128
  · have all : ∀ n < 128, isBlank (Char.ofNat n).toLower = isBlank (Char.ofNat n) := by
      decide +kernel
    simpa using all c.toNat ascii
  · have same : c.toLower = c := by
      refine dif_neg fun upper => ascii ?_
      have below : c.toNat ≤ 90 := UInt32.le_iff_toNat_le.mp upper.2
      omega
    rw [same]

theorem isBlank_lowerChar {c d : Char} (inside : d ∈ lowerChar c) : isBlank d = isBlank c := by
  unfold lowerChar at inside
  split at inside
  next =>
    obtain rfl := List.mem_singleton.mp inside
    exact isBlank_toLower c
  next =>
    split at inside
    next dotted =>
      have visible : ∀ d ∈ ['i',Char.ofNat 0x307], isBlank d = false := by decide
      rw [visible d inside]
      simp [isBlank,dotted]
    next =>
      split at inside
      next r found =>
        obtain ⟨apart,below⟩ : (∀ n ∈ blankCodes, ¬ (r.first ≤ n ∧ n ≤ r.last)) ∧
            ∀ n ∈ blankCodes, ¬ (r.first + r.shift ≤ n ∧ n ≤ r.last + r.shift) :=
          forall₂_and.mp (caseRuns_apart r (List.mem_of_find?_eq_some found))
        have holds := List.find?_some found
        simp only [CaseRun.holds,Bool.and_eq_true,decide_eq_true_eq] at holds
        obtain rfl := List.mem_singleton.mp inside
        have visible : isBlank c = false :=
          Bool.eq_false_iff.mpr fun blank => apart _ (mem_blankCodes blank) holds.1
        rw [visible,Bool.eq_false_iff]
        intro blank
        have member := mem_blankCodes blank
        have positive : ∀ n ∈ blankCodes, 0 < n := by decide
        rcases toNat_ofNat (c.toNat + r.shift).toNat with same | none
        · rw [same] at member
          have some := positive _ member
          exact below _ member (by omega)
        · rw [none] at member
          exact absurd (positive 0 member) (Nat.lt_irrefl 0)
      next =>
        obtain rfl := List.mem_singleton.mp inside
        rfl

theorem lowerChar_ne_nil (c : Char) : lowerChar c ≠ [] := by
  unfold lowerChar
  split
  · simp
  · split
    · simp
    · split <;> simp

theorem lowerAfter_cons (before : List Char) (c : Char) (s : List Char) :
    ∃ small, lowerAfter before (c :: s) = small ++ lowerAfter (c :: before) s ∧ small ≠ [] ∧
      ∀ d ∈ small, isBlank d = isBlank c := by
  refine ⟨_,rfl,?_,?_⟩
  · split
    · split <;> simp
    · exact lowerChar_ne_nil c
  · intro d inside
    split at inside
    next sigma =>
      have visible : isBlank c = false := by simp [isBlank,sigma]
      have small : ∀ d ∈ ['ς','σ'], isBlank d = false := by decide
      rw [visible]
      refine small d ?_
      split at inside <;> simp_all
    next => exact isBlank_lowerChar inside

private theorem meetsCased_blank {c : Char} (blank : isBlank c = true) (s t : List Char) :
    meetsCased (s ++ c :: t) = meetsCased s := by
  have apart : ∀ n ∈ blankCodes, inRanges caseIgnorableRanges n = false ∧
      inRanges casedRanges n = false := by decide +kernel
  obtain ⟨seen,caseless⟩ := apart _ (mem_blankCodes blank)
  unfold meetsCased
  induction s with
  | nil => simp [seen,caseless]
  | cons d s ih => cases ignored : inRanges caseIgnorableRanges d.toNat <;> simp [ignored,ih]

theorem lowerAfter_behind_blank {c : Char} (blank : isBlank c = true) (s before more : List Char) :
    lowerAfter (before ++ c :: more) s = lowerAfter before s := by
  induction s generalizing before with
  | nil => rfl
  | cons d s ih => rw [lowerAfter,lowerAfter,meetsCased_blank blank,← List.cons_append,ih]

theorem lowerAfter_append_blanks {blanks : List Char} (blank : ∀ c ∈ blanks, isBlank c = true)
    (s before : List Char) : ∃ behind, (∀ c ∈ behind, isBlank c = true) ∧
      lowerAfter before (s ++ blanks) = lowerAfter before s ++ behind := by
  induction s generalizing before with
  | nil =>
    induction blanks generalizing before with
    | nil => exact ⟨[],by simp,rfl⟩
    | cons c blanks ih =>
      obtain ⟨first,later⟩ := List.forall_mem_cons.mp blank
      obtain ⟨small,lowered,-,alike⟩ := lowerAfter_cons before c blanks
      obtain ⟨behind,all,rest⟩ := ih later (c :: before)
      refine ⟨small ++ behind,List.forall_mem_append.mpr
        ⟨fun d inside => (alike d inside).trans first,all⟩,?_⟩
      rw [List.nil_append] at rest ⊢
      rw [lowered,rest]
      rfl
  | cons c s ih =>
    obtain ⟨behind,all,rest⟩ := ih (c :: before)
    have same : meetsCased (s ++ blanks) = meetsCased s := by
      cases blanks with
      | nil => rw [List.append_nil]
      | cons d blanks => exact meetsCased_blank (blank d List.mem_cons_self) s blanks
    refine ⟨behind,all,?_⟩
    rw [List.cons_append,lowerAfter,lowerAfter,same,rest,List.append_assoc]

theorem ascii_of_toLower {c : Char} (ascii : c.toLower.toNat < 128) : c.toNat < 128 := by
  by_cases upper : c.val ≥ 'A'.val ∧ c.val ≤ 'Z'.val
  · have below : c.toNat ≤ 90 := UInt32.le_iff_toNat_le.mp upper.2
    omega
  · have same : c.toLower = c := dif_neg upper
    rwa [same] at ascii

theorem lowerAfter_ascii {s : List Char} (ascii : ∀ c ∈ s, c.toNat < 128)
    (before rest : List Char) : lowerAfter before (s ++ rest) =
      s.map Char.toLower ++ lowerAfter (s.reverse ++ before) rest := by
  induction s generalizing before with
  | nil => rfl
  | cons c s ih =>
    obtain ⟨first,later⟩ := List.forall_mem_cons.mp ascii
    have noSigma : c.toNat ≠ 0x3A3 := by omega
    rw [List.cons_append,lowerAfter,if_neg noSigma,lowerChar,if_pos first,ih later]
    simp

theorem length_tokens_lower (s : List Char) : (tokens (lower s)).length = (tokens s).length := by
  -- the tokens begun differ in their characters, but both have some or neither has
  have general (s before begun begun' : List Char) (same : begun = [] ↔ begun' = []) :
      (tokensFrom begun' (lowerAfter before s)).length = (tokensFrom begun s).length := by
    induction s generalizing before begun begun' with
    | nil => cases begun <;> cases begun' <;> simp_all [lowerAfter,tokensFrom]
    | cons c s ih =>
      obtain ⟨small,lowered,some,alike⟩ := lowerAfter_cons before c s
      rw [lowered]
      cases blank : isBlank c with
      | true =>
        rw [tokensFrom_blanks (fun d inside => (alike d inside).trans blank) some]
        have later := ih (c :: before) [] [] Iff.rfl
        cases begun <;> cases begun' <;> simp_all [tokensFrom]
      | false =>
        rw [tokensFrom_visible (fun d inside => (alike d inside).trans blank)]
        have later := ih (c :: before) (c :: begun) (small.reverse ++ begun') (by simp [some])
        simpa [tokensFrom,blank] using later
  exact general s [] [] [] Iff.rfl

end PipelineAtlas.Text
