import PipelineAtlas.Proofs.Fallible
import PipelineAtlas.Proofs.Schedule.Firing
import PipelineAtlas.Proofs.Schedule.Interval
import PipelineAtlas.Proofs.Text.Token

/-! The periods of cron texts. A period is said of the tokens between blanks, while lines are read with
or without blanks between their fields. A text with a period of a day fires at one time of every day, a
text with a period of an hour at one minute and second of every hour, in the years that lines have. -/
namespace PipelineAtlas

namespace Recurrence

theorem length_tokens_of_readShortcut {text : List Char} {r : Recurrence}
    (read : readShortcut text = .ok r) : (Text.tokens text).length ≤ 2 := by
  have short : ∀ p ∈ presets, (Text.tokens p.1.toList).length ≤ 2 := by decide
  rw [← Text.length_tokens_lower text]
  unfold readShortcut at read
  dsimp only at read
  split at read
  next p found =>
    have named := List.find?_some found
    rw [← beq_iff_eq.mp named]
    exact short p (List.mem_of_find?_eq_some found)
  next =>
    split at read
    next marked =>
      obtain ⟨rest,whole⟩ := List.isPrefixOf_iff_prefix.mp marked
      split at read
      next seconds found =>
        rw [← whole,List.drop_left] at found
        have one := Text.length_tokens_of_visible (Interval.visible_of_read? found)
        rw [Text.tokens_trim] at one
        have every : Text.tokens (everyMark ++ rest) = "@every".toList :: Text.tokens rest := rfl
        rw [← whole,every,List.length_cons]
        omega
      next => cases read
    next => cases read

/-- The fields of a cron text with these tokens. A second that is left out is 0. -/
inductive HasFields (tokens : List (List Char)) : List (List Char) → Prop
  | five (count : tokens.length = 5) : HasFields tokens (['0'] :: tokens)
  | six (count : tokens.length = 6) : HasFields tokens tokens

theorem hasFields_iff {tokens fields : List (List Char)} : HasFields tokens fields ↔
    (if tokens.length = 5 then some (['0'] :: tokens)
      else if tokens.length = 6 then some tokens else none) = some fields := by
  constructor
  · rintro (count | count) <;> simp [count]
  · intro found
    split at found
    next count =>
      cases found
      exact .five count
    next =>
      split at found
      next count =>
        cases found
        exact .six count
      next => cases found

theorem readCron_ok {text : List Char} {r : Recurrence} : readCron text = .ok r ↔
    ∃ fields line, HasFields (Text.tokens text) fields ∧
      Cron.read? (spaced fields) = some line ∧ r = .cron (fixedPeriod fields) := by
  simp only [readCron,hasFields_iff]
  generalize (if (Text.tokens text).length = 5 then _ else _) = fields?
  cases fields? with
  | none => simp
  | some fields =>
    cases read : Cron.read? (spaced fields) <;> simp [read,eq_comm]

theorem plain_of_isNumber {t : List Char} (number : isNumber t = true) : Cron.Plain t := by
  obtain ⟨n,read⟩ := Option.isSome_iff_exists.mp number
  unfold Text.unsigned? at read
  split at read
  next t => exact .signed t
  next => exact .numeral (Cron.numeral_of_decimal? read)

theorem isNumber_of_decimal? {t : List Char} {n : Nat}
    (read : Text.decimal? Cron.word t = some n) : isNumber t = true := by
  have numeral := Cron.numeral_of_decimal? read
  unfold isNumber Text.unsigned?
  split
  next t => exact absurd (numeral.digits '+' List.mem_cons_self) (by decide)
  next => exact Option.isSome_iff_exists.mpr ⟨n,read⟩

theorem ne_star_of_isNumber {t : List Char} (number : isNumber t = true) : t ≠ ['*'] := by
  rintro rfl
  exact absurd number (by decide)

theorem fixedPeriod_some {fields : List (List Char)} {p : Nat} (found : fixedPeriod fields = some p) :
    ∃ second minute hour, fields = [second,minute,hour,['*'],['*'],['*']] ∧
      isNumber second = true ∧ isNumber minute = true ∧
      (isNumber hour = true ∧ p = Interval.day ∨ hour = ['*'] ∧ p = Interval.hour) := by
  unfold fixedPeriod at found
  split at found
  next second minute hour day month weekday =>
    split at found
    next fixed =>
      simp only [Bool.and_eq_true,isStar,beq_iff_eq] at fixed
      obtain ⟨⟨⟨⟨numberSecond,numberMinute⟩,rfl⟩,rfl⟩,rfl⟩ := fixed
      refine ⟨second,minute,hour,rfl,numberSecond,numberMinute,?_⟩
      split at found
      next number => exact .inl ⟨number,(Option.some.inj found).symm⟩
      next =>
        split at found
        next star => exact .inr ⟨beq_iff_eq.mp star,(Option.some.inj found).symm⟩
        next => cases found
    next => cases found
  next => cases found

/-- A period that is found is that of the line. -/
theorem fires_of_fixedPeriod {fields : List (List Char)} {line : Cron.Line} {p : Nat}
    (read : Cron.read? (spaced fields) = some line) (found : fixedPeriod fields = some p) :
    p = Interval.day ∧ line.Daily ∨ p = Interval.hour ∧ line.Hourly := by
  obtain ⟨second,minute,hour,rfl,numberSecond,numberMinute,period⟩ := fixedPeriod_some found
  have plainHour : Cron.Plain hour := by
    rcases period with ⟨number,-⟩ | ⟨rfl,-⟩
    · exact plain_of_isNumber number
    · exact .star
  have means := Cron.meansAll_of_read? (by
    simp [plain_of_isNumber numberSecond,plain_of_isNumber numberMinute,plainHour,Cron.Plain.star]) read
  have second := ne_star_of_isNumber numberSecond
  have minute := ne_star_of_isNumber numberMinute
  rcases period with ⟨number,same⟩ | ⟨star,same⟩
  · exact .inl ⟨same,means.daily second minute (ne_star_of_isNumber number)⟩
  · exact .inr ⟨same,means.hourly second minute star⟩

theorem isNumber_of_means {kind : Cron.FieldKind} {t : List Char} {items : List Cron.Item}
    (means : Cron.Means kind t items) (other : t ≠ ['*']) : isNumber t = true := by
  cases means with
  | number value _ => exact isNumber_of_decimal? value
  | star => exact absurd rfl other

theorem ne_star_of_numeral {t : List Char} (numeral : Cron.Numeral t) : t ≠ ['*'] := by
  rintro rfl
  exact absurd (numeral.digits '*' List.mem_cons_self) (by decide)

theorem fixedPeriod_of_read? {second minute hour : List Char} {line : Cron.Line}
    (read : Cron.read? (spaced [second,minute,hour,['*'],['*'],['*']]) = some line)
    (numeralSecond : Cron.Numeral second) (numeralMinute : Cron.Numeral minute)
    (everyHour : Cron.Numeral hour ∨ hour = ['*']) :
    fixedPeriod [second,minute,hour,['*'],['*'],['*']] =
      some (if hour = ['*'] then Interval.hour else Interval.day) := by
  have plainHour : Cron.Plain hour := by
    rcases everyHour with numeral | rfl
    · exact .numeral numeral
    · exact .star
  have means := Cron.meansAll_of_read?
    (by simp [Cron.Plain.numeral numeralSecond,Cron.Plain.numeral numeralMinute,plainHour,
      Cron.Plain.star]) read
  have numberSecond := isNumber_of_means means.second (ne_star_of_numeral numeralSecond)
  have numberMinute := isNumber_of_means means.minute (ne_star_of_numeral numeralMinute)
  rcases everyHour with numeral | rfl
  · have other := ne_star_of_numeral numeral
    simp [fixedPeriod,isStar,numberSecond,numberMinute,isNumber_of_means means.hour other,other]
  · have noNumber : isNumber ['*'] = false := by decide
    simp [fixedPeriod,isStar,numberSecond,numberMinute,noNumber]

theorem HasFields.unique {tokens fields fields' : List (List Char)} (has : HasFields tokens fields)
    (has' : HasFields tokens fields') : fields = fields' :=
  Option.some.inj ((hasFields_iff.mp has).symm.trans (hasFields_iff.mp has'))

theorem HasFields.many {tokens fields : List (List Char)} (has : HasFields tokens fields) :
    2 < tokens.length := by
  cases has <;> omega

theorem exists_spaced_cons (c : Char) (t : List Char) (ts : List (List Char)) :
    ∃ s, spaced ((c :: t) :: ts) = c :: s := by
  cases ts with
  | nil => exact ⟨t,rfl⟩
  | cons u ts => exact ⟨_,rfl⟩

theorem read?_of_shortcut {text : List Char} {fields : List (List Char)}
    (has : HasFields (Text.tokens text) fields) (shortcut : (Text.trim text).head? = some '@') :
    Cron.read? (spaced fields) = none := by
  have foreign : Cron.Foreign '@' := by constructor <;> decide
  obtain ⟨rest,split⟩ : ∃ rest, Text.trim text = '@' :: rest := List.head?_eq_some_iff.mp shortcut
  obtain ⟨t,ts,found⟩ := Text.tokens_cons (by decide : Text.isBlank '@' = false) rest
  rw [← Text.tokens_trim,split,found] at has
  obtain ⟨s,start⟩ := exists_spaced_cons '@' t ts
  cases has with
  | six count =>
    rw [start,Cron.read?,Cron.takeField_foreign foreign]
    rfl
  | five count =>
    have numeral : Cron.Numeral ['0'] := ⟨by simp,by decide⟩
    have first : Cron.takeField Cron.second ('0' :: ' ' :: '@' :: s) =
        some ([.span (.one 0)],'@' :: s) :=
      Cron.takeField_numeral (.field s (by decide)) numeral Cron.second
    have whole : spaced (['0'] :: ('@' :: t) :: ts) = '0' :: ' ' :: '@' :: s := by
      rw [← start]
      rfl
    rw [whole,Cron.read?,first]
    simp [Cron.takeField_foreign foreign]

theorem readCron_trim {text : List Char} {r : Recurrence} :
    readCron (Text.trim text) = .ok r ↔ readCron text = .ok r := by
  rw [readCron_ok,readCron_ok,Text.tokens_trim]

/-- A text of more than two tokens is read as a cron text or not at all. -/
theorem read_ok_of_many {text : List Char} (many : 2 < (Text.tokens text).length)
    {r : Recurrence} : read text = .ok r ↔ readCron text = .ok r := by
  rw [← Text.tokens_trim] at many
  have noName : ¬ ((Text.trim text).map Char.toLower == "none".toList) = true := by
    intro same
    have visible : ∀ c ∈ Text.trim text, Text.isBlank c = false := by
      have letters : ∀ c ∈ "none".toList, Text.isBlank c = false := by decide
      intro c inside
      rw [← Text.isBlank_toLower]
      exact letters _ (beq_iff_eq.mp same ▸ List.mem_map_of_mem inside)
    have one := Text.length_tokens_of_visible visible
    omega
  -- a shortcut has two tokens at the most, and no field of a line starts like one
  unfold read
  dsimp only
  rw [if_neg noName,← readCron_trim]
  split
  next shortcut =>
    constructor
    · intro read
      have few := length_tokens_of_readShortcut read
      omega
    · intro read
      obtain ⟨fields,line,has,found,-⟩ := readCron_ok.mp (readCron_trim.mp read)
      rw [read?_of_shortcut has shortcut] at found
      cases found
  next => rfl

end Recurrence

open Recurrence

namespace Schedule

theorem parse_ok {text : String} {s : Schedule} :
    parse text = .ok s ↔ read text.toList = .ok s.recurrence ∧ s.expression = text := by
  rw [parse,Fallible.map_ok]
  constructor
  · rintro ⟨r,read,rfl⟩
    exact ⟨read,rfl⟩
  · rintro ⟨read,rfl⟩
    exact ⟨_,read,rfl⟩

theorem fires_of_period {text : String} {s : Schedule}
    (noShortcut : (Text.trim text.toList).head? ≠ some '@') (parsed : parse text = .ok s)
    (cron : s.describe = "cron") : ∃ fields line,
      HasFields (Text.tokens text.toList) fields ∧ Cron.read? (spaced fields) = some line ∧
        (s.period = none ∨ s.period = some Interval.day ∧ line.Daily ∨
          s.period = some Interval.hour ∧ line.Hourly) := by
  obtain ⟨read,-⟩ := parse_ok.mp parsed
  unfold Recurrence.read at read
  dsimp only at read
  rw [if_neg noShortcut] at read
  split at read
  next =>
    rw [describe,← Except.ok.inj read] at cron
    exact absurd cron (by decide)
  next =>
    rw [readCron_trim] at read
    obtain ⟨fields,line,has,found,same⟩ := readCron_ok.mp read
    refine ⟨fields,line,has,found,?_⟩
    have period : s.period = fixedPeriod fields := by rw [Schedule.period,same,Recurrence.period]
    rw [period]
    cases fixed : fixedPeriod fields with
    | none => exact .inl rfl
    | some p =>
      rcases fires_of_fixedPeriod found fixed with ⟨rfl,daily⟩ | ⟨rfl,hourly⟩
      · exact .inr (.inl ⟨rfl,daily⟩)
      · exact .inr (.inr ⟨rfl,hourly⟩)

theorem period_of_fields {text : String} {s : Schedule} {second minute hour : List Char}
    (has : HasFields (Text.tokens text.toList) [second,minute,hour,['*'],['*'],['*']])
    (numeralSecond : Cron.Numeral second) (numeralMinute : Cron.Numeral minute)
    (everyHour : Cron.Numeral hour ∨ hour = ['*']) (parsed : parse text = .ok s) :
    s.period = some (if hour = ['*'] then Interval.hour else Interval.day) := by
  have read := (read_ok_of_many has.many).mp (parse_ok.mp parsed).1
  obtain ⟨fields,line,has',found,same⟩ := readCron_ok.mp read
  obtain rfl := has.unique has'
  rw [period,same,Recurrence.period]
  exact fixedPeriod_of_read? found numeralSecond numeralMinute everyHour

theorem toOption_parse (text : String) :
    (parse text).toOption.map (·.period) = (read text.toList).toOption.map (·.period) := by
  rw [parse]
  cases read text.toList <;> rfl

theorem period_of_second {text : String} (five : (Text.tokens text.toList).length = 5) :
    (parse ("0 " ++ text)).toOption.map (·.period) = (parse text).toOption.map (·.period) := by
  have tokens : Text.tokens ("0 " ++ text).toList = ['0'] :: Text.tokens text.toList := by
    rw [String.toList_append]
    rfl
  have six : (Text.tokens ("0 " ++ text).toList).length = 6 := by
    rw [tokens,List.length_cons,five]
  have written : HasFields (Text.tokens ("0 " ++ text).toList) (['0'] :: Text.tokens text.toList) :=
    tokens ▸ .six six
  have leftOut : HasFields (Text.tokens text.toList) (['0'] :: Text.tokens text.toList) := .five five
  have fields (fields : List (List Char)) : HasFields (Text.tokens ("0 " ++ text).toList) fields ↔
      HasFields (Text.tokens text.toList) fields :=
    ⟨fun has => written.unique has ▸ leftOut,fun has => leftOut.unique has ▸ written⟩
  rw [toOption_parse,toOption_parse]
  refine congrArg _ (Fallible.toOption_congr fun r => ?_)
  rw [read_ok_of_many (by omega),read_ok_of_many (by omega),readCron_ok,readCron_ok]
  simp only [fields]

/-- A cron text with a period of a day fires once every day from 1970 to 2100, one with a period of an
hour once in every hour of these days, and there are no other periods. Numbers for second and minute, and a number or a star for the hour,
before three stars, have such a period; a second of 0 may be left out. -/
theorem period_of_cron :
    (∀ (text : String) (s : Schedule), (Text.trim text.toList).head? ≠ some '@' →
      parse text = .ok s → s.describe = "cron" → ∃ fields line,
        HasFields (Text.tokens text.toList) fields ∧ Cron.read? (spaced fields) = some line ∧
          (s.period = none ∨ s.period = some Interval.day ∧ line.Daily ∨
            s.period = some Interval.hour ∧ line.Hourly)) ∧
    (∀ (text : String) (s : Schedule) (second minute hour : List Char),
      HasFields (Text.tokens text.toList) [second,minute,hour,['*'],['*'],['*']] →
      Cron.Numeral second → Cron.Numeral minute → Cron.Numeral hour ∨ hour = ['*'] →
      parse text = .ok s →
        s.period = some (if hour = ['*'] then Interval.hour else Interval.day)) ∧
    ∀ text : String, (Text.tokens text.toList).length = 5 →
      (parse ("0 " ++ text)).toOption.map (·.period) = (parse text).toOption.map (·.period) :=
  ⟨fun _ _ noShortcut parsed cron => fires_of_period noShortcut parsed cron,
    fun _ _ _ _ _ has numeralSecond numeralMinute everyHour parsed =>
      period_of_fields has numeralSecond numeralMinute everyHour parsed,
    fun _ five => period_of_second five⟩

/-- A line for every night, with blanks all around, and one for every hour. -/
theorem period_of_cron_nightly : ∃ nightly again hourly,
    parse "\t30 2  * * *\n" = .ok nightly ∧ nightly.period = some Interval.day ∧
      (∃ line, Cron.read? "0 30 2 * * *".toList = some line ∧ line.Daily) ∧
      parse "0 \t30 2  * * *\n" = .ok again ∧ again.period = nightly.period ∧
      parse "15 5 * * * *" = .ok hourly ∧ hourly.period = some Interval.hour := by
  obtain ⟨fires,fields,second⟩ := period_of_cron
  have nightly : parse "\t30 2  * * *\n" = .ok ⟨"\t30 2  * * *\n",.cron (some 86400)⟩ := by rfl
  have again : parse "0 \t30 2  * * *\n" = .ok ⟨"0 \t30 2  * * *\n",.cron (some 86400)⟩ := by rfl
  have hourly : parse "15 5 * * * *" = .ok ⟨"15 5 * * * *",.cron (some 3600)⟩ := by rfl
  have same := second "\t30 2  * * *\n" (by decide)
  refine ⟨_,_,_,nightly,rfl,?_,again,?_,hourly,?_⟩
  · obtain ⟨_,line,has,read,never | ⟨-,daily⟩ | ⟨hour,-⟩⟩ := fires _ _ (by decide) nightly rfl
    · cases never
    · obtain rfl := has.unique (.five (by decide))
      exact ⟨line,read,daily⟩
    · exact absurd hour (by decide)
  · rw [nightly] at same
    change (parse "0 \t30 2  * * *\n").toOption.map _ = _ at same
    rw [again] at same
    exact Option.some.inj same
  · exact fields _ _ "15".toList "5".toList ['*'] (.six (by decide)) ⟨by decide,by decide⟩
      ⟨by decide,by decide⟩ (.inr rfl) hourly

/-- After 2100 a text with a period of a day does not fire. -/
theorem period_of_cron_late : ∃ s line,
    parse "30 2 * * *" = .ok s ∧ s.describe = "cron" ∧ s.period = some Interval.day ∧
      Cron.read? "0 30 2 * * *".toList = some line ∧ (⟨2101,1,1⟩ : Date).OnCalendar ∧
      ∀ c, line.fires ⟨2101,1,1⟩ c = false := by
  refine ⟨⟨"30 2 * * *",.cron (some 86400)⟩,
    ⟨[.span (.one 0)],[.span (.one 30)],[.span (.one 2)],[.span .all],[.span .all],[.span .all],none⟩,
    by rfl,rfl,rfl,by decide +kernel,⟨by decide,by decide⟩,fun c => ?_⟩
  rw [Cron.Line.fires,Bool.and_eq_false_iff]
  right
  rw [Bool.eq_false_iff]
  intro inYear
  have atMost := ((Cron.Line.firesIn_of_missing rfl).mp inYear).2
  exact absurd atMost (by decide)

end Schedule

end PipelineAtlas
