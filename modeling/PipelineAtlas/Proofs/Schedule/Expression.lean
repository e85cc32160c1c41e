import Mathlib.Data.List.Basic
import PipelineAtlas.Json
import PipelineAtlas.Proofs.Fallible
import PipelineAtlas.Proofs.Schedule.Interval
import PipelineAtlas.Schedule

/-! Schedules and their texts. However a schedule comes about, reading its text gives it again, so that
schedules with one text agree in all they say. -/
namespace PipelineAtlas

namespace Text

theorem lower_of_plain {s : List Char} (plain : ∀ c ∈ s, c.toNat < 128 ∧ c.toLower = c) :
    lower s = s := by
  have unchanged : ∀ (before : List Char), lowerAfter before s = s := by
    induction s with
    | nil => exact fun _ => rfl
    | cons c s ih =>
      intro before
      obtain ⟨⟨ascii,small⟩,later⟩ := List.forall_mem_cons.mp plain
      have noSigma : c.toNat ≠ 0x3A3 := by omega
      rw [lowerAfter,if_neg noSigma,lowerChar,if_pos ascii,small,ih later,List.singleton_append]
  exact unchanged []

end Text

namespace Recurrence

variable {n : Nat} (positive : 0 < n) (fits : n < Interval.bound)

include positive fits in
theorem write_ne_nil : (Interval.write n).toList ≠ [] := by
  intro empty
  have read := Interval.read?_write positive fits
  rw [empty] at read
  simp [Interval.read?,Interval.readFrom] at read

include positive fits in
theorem trim_everyText : Text.trim (everyMark ++ (Interval.write n).toList) =
    everyMark ++ (Interval.write n).toList := by
  refine Text.trim_of_ends (fun c first => ?_) fun c last => ?_
  · obtain rfl : '@' = c := Option.some.inj first
    decide
  · rw [List.getLast?_append_of_ne_nil _ (write_ne_nil positive fits)] at last
    exact Text.isBlank_of_isAsciiWord
      (Interval.word_of_isMark (Interval.isMark_of_mem_write (List.mem_of_mem_getLast? last)))

theorem lower_everyText (n : Nat) : Text.lower (everyMark ++ (Interval.write n).toList) =
    everyMark ++ (Interval.write n).toList := by
  have mark : ∀ c ∈ everyMark, c.toNat < 128 ∧ c.toLower = c := by decide
  refine Text.lower_of_plain fun c inside => ?_
  rcases List.mem_append.mp inside with before | behind
  · exact mark c before
  · have isMark := Interval.isMark_of_mem_write behind
    exact ⟨Interval.ascii_of_isMark isMark,Interval.toLower_of_isMark isMark⟩

theorem find?_presets (s : List Char) :
    presets.find? (fun p => p.1.toList == everyMark ++ s) = none := by
  have apart : ∀ p ∈ presets, p.1.toList.take everyMark.length ≠ everyMark := by decide
  refine List.find?_eq_none.mpr fun p member same => apart p member ?_
  rw [beq_iff_eq.mp same,List.take_left]

theorem readShortcut_of_lower {text interval : List Char}
    (low : Text.lower text = everyMark ++ interval) : readShortcut text =
      (Interval.read? (Text.trim interval)).elim
        (.error (.invalidInterval (String.ofList (Text.trim interval))))
        fun seconds => .ok (.interval seconds) := by
  have marked : everyMark.isPrefixOf (everyMark ++ interval) = true :=
    List.isPrefixOf_iff_prefix.mpr (List.prefix_append _ _)
  unfold readShortcut
  rw [low]
  dsimp only
  rw [find?_presets]
  dsimp only
  rw [if_pos marked,List.drop_left]
  cases Interval.read? (Text.trim interval) <;> rfl

include positive fits in
theorem readShortcut_everyText :
    readShortcut (everyMark ++ (Interval.write n).toList) = .ok (.interval n) := by
  have whole : Text.trim (Interval.write n).toList = (Interval.write n).toList :=
    Text.trim_of_word fun c inside => Interval.word_of_isMark (Interval.isMark_of_mem_write inside)
  rw [readShortcut_of_lower (lower_everyText n),whole,Interval.read?_write positive fits]
  rfl

include positive fits in
theorem read_everyText :
    read (everyMark ++ (Interval.write n).toList) = .ok (.interval n) := by
  have noName : ¬ ((everyMark ++ (Interval.write n).toList).map Char.toLower ==
      "none".toList) = true := by
    intro same
    have first : '@' = 'n' := (List.cons.inj (beq_iff_eq.mp same)).1
    exact absurd first (by decide)
  have shortcut : (everyMark ++ (Interval.write n).toList).head? = some '@' := rfl
  unfold read
  rw [trim_everyText positive fits]
  dsimp only
  rw [if_neg noName,if_pos shortcut,readShortcut_everyText positive fits]

end Recurrence

namespace Schedule

/-- The ways in which schedules come about. -/
inductive Made : Schedule → Prop
  | parsed {text : String} {s : Schedule} (read : parse text = .ok s) : Made s
  | manual : Made manual
  | every {seconds nanos : Nat} {s : Schedule}
      (fits : seconds + nanos / 1000000000 < Interval.bound)
      (made : every seconds nanos = .ok s) : Made s
  | received {α ε : Type} {readText : α → Except ε String} {custom : String → ε} {source : α}
      {s : Schedule} (received : receive readText custom source = .ok s) : Made s

theorem parse_of_parsed {text : String} {s : Schedule} (read : parse text = .ok s) :
    parse s.expression = .ok s := by
  obtain ⟨r,-,rfl⟩ := Fallible.map_ok.mp read
  exact read

theorem parse_every {seconds nanos : Nat} (positive : 0 < seconds + nanos / 1000000000)
    (fits : seconds + nanos / 1000000000 < Interval.bound) :
    ∃ s, every seconds nanos = .ok s ∧ parse s.expression = .ok s ∧
      s.recurrence = .interval (seconds + nanos / 1000000000) := by
  have some : every seconds nanos = .ok
      ⟨"@every " ++ Interval.write (seconds + nanos / 1000000000),
        .interval (seconds + nanos / 1000000000)⟩ :=
    if_neg (Nat.pos_iff_ne_zero.mp positive)
  refine ⟨_,some,?_,rfl⟩
  have text : ("@every " ++ Interval.write (seconds + nanos / 1000000000)).toList =
      Recurrence.everyMark ++ (Interval.write (seconds + nanos / 1000000000)).toList :=
    String.toList_append
  unfold parse
  rw [text,Recurrence.read_everyText positive fits]
  rfl

theorem parse_of_made {s : Schedule} (made : Made s) : parse s.expression = .ok s := by
  cases made with
  | parsed read => exact parse_of_parsed read
  | manual => rfl
  | @every seconds nanos s fits made =>
    by_cases zero : seconds + nanos / 1000000000 = 0
    · simp [every,zero] at made
    · obtain ⟨t,made',read,-⟩ := parse_every (Nat.pos_of_ne_zero zero) fits
      obtain rfl : t = s := Except.ok.inj (made'.symm.trans made)
      exact read
  | received received =>
    obtain ⟨text,-,read⟩ := Fallible.bind_ok.mp received
    exact parse_of_parsed (Fallible.mapError_ok.mp read)

/-- A schedule is determined by its text. However it came about, its text is read as the schedule that
it is. The text of an interval stands for exactly its whole seconds, and equal schedules say the same. -/
theorem determined_by_expression :
    (∀ s, Made s → parse s.expression = .ok s) ∧
      (∀ seconds nanos, 0 < seconds + nanos / 1000000000 →
        seconds + nanos / 1000000000 < Interval.bound →
          ∃ s, every seconds nanos = .ok s ∧ parse s.expression = .ok s ∧
            s.recurrence = .interval (seconds + nanos / 1000000000)) ∧
      ∀ s t, Made s → Made t → (s == t) = true → s.period = t.period ∧ s.isDaily = t.isDaily ∧
        s.isManual = t.isManual ∧ s.describe = t.describe := by
  refine ⟨fun s made => parse_of_made made,fun seconds nanos positive fits =>
    parse_every positive fits,fun s t made other same => ?_⟩
  have text : s.expression = t.expression := beq_iff_eq.mp same
  have read := parse_of_made made
  rw [text,parse_of_made other] at read
  obtain rfl : t = s := Except.ok.inj read
  exact ⟨rfl,rfl,rfl,rfl⟩

/-- The largest interval there is, with a fraction of a second, and a day sent as the text of a JSON
value. -/
theorem determined_by_expression_extremes :
    let whole : Json → Except String String
      | .string s => .ok s
      | _ => .error "a text is missing"
    ∃ longest day, every 18446744073709551614 1999999999 = .ok longest ∧
      longest.expression = "@every 213503982334601d7h15s" ∧
      receive whole id (.string "@every 1d") = .ok day ∧
      parse longest.expression = .ok longest ∧ longest.period = some 18446744073709551615 ∧
      parse day.expression = .ok day ∧
      ∀ s, every 86399 1000000000 = .ok s → (s == day) = true ∧ s.isDaily = day.isDaily := by
  intro whole
  obtain ⟨parsed,written,equal⟩ := determined_by_expression
  obtain ⟨longest,made,read,-⟩ := written 18446744073709551614 1999999999 (by decide)
    (by decide)
  have text : every 18446744073709551614 1999999999 =
      .ok ⟨"@every 213503982334601d7h15s",.interval 18446744073709551615⟩ := by rfl
  have sent : receive whole id (.string "@every 1d") = .ok ⟨"@every 1d",.interval 86400⟩ := by rfl
  have brief : every 86399 1000000000 = .ok ⟨"@every 1d",.interval 86400⟩ := by rfl
  obtain rfl := Except.ok.inj (text.symm.trans made)
  refine ⟨_,_,made,rfl,sent,read,rfl,parsed _ (.received sent),fun s day => ?_⟩
  obtain rfl := Except.ok.inj (brief.symm.trans day)
  have same : (⟨"@every 1d",.interval 86400⟩ : Schedule) == ⟨"@every 1d",.interval 86400⟩ := by rfl
  exact ⟨same,(equal _ _ (.every (by decide) day) (.received sent) same).2.1⟩

end Schedule

end PipelineAtlas
