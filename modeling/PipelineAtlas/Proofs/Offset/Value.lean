import PipelineAtlas.Proofs.Offset.Bracket
import PipelineAtlas.Proofs.Script.LooseValue
import PipelineAtlas.Proofs.Script.Mark
import PipelineAtlas.Proofs.Script.ValueText

/-! Reading values from a text by offsets. Reading never fails, and gives what reading the cells of the
text gives. -/
namespace PipelineAtlas.Offset

open Script
open String (utf8Len)

theorem mapM_of_forall {f : β → Option γ} {g : α → β} {h : α → γ} {items : List α}
    (each : ∀ x ∈ items, f (g x) = some (h x)) : (items.map g).mapM f = some (items.map h) := by
  induction items with
  | nil => rfl
  | cons x items ih =>
    obtain ⟨here,later⟩ := List.forall_mem_cons.mp each
    rw [List.map_cons,List.mapM_cons,here,ih later]
    rfl

def decodeFrom? (whole ends : List Char) (raw : Bool) (i : Nat) :
    List Char → Option (Option (List Char))
  | [] => some (some [])
  | c :: rest =>
    match (from? i whole).map ends.isPrefixOf with
    | none => none
    | some true => some none
    | some false =>
      if c ≠ '\\' ∨ raw then
        (decodeFrom? whole ends raw (i + c.utf8Size) rest).map (Option.map (c :: ·))
      else
        match rest with
        | [] => some none
        | d :: rest =>
          (decodeFrom? whole ends raw (i + c.utf8Size + d.utf8Size) rest).map
            (Option.map (escapeMeaning d ++ ·))

def quoted? (raw : Bool) (body : List Char) : Option (Option (List Char)) :=
  match body with
  | [] => some none
  | quote :: _ =>
    if isQuote quote then
      (if decide (6 ≤ utf8Len body) && [quote,quote,quote].isPrefixOf body then
          some [quote,quote,quote]
        else upTo? 1 body).bind fun ends =>
        match between ends body with
        | some inner => decodeFrom? inner ends raw 0 inner
        | none => some none
    else some none

def string? (s : List Char) : Option (Option (List Char)) :=
  match s with
  | [] => some none
  | c :: rest => if c = 'r' ∨ c = 'R' then quoted? true rest else quoted? false (c :: rest)

theorem decodeFrom?_eq (before rest ends : List Char) (raw : Bool) :
    decodeFrom? (before ++ rest) ends raw (utf8Len before) rest =
      some (literalValue raw ends rest) := by
  induction bound : rest.length using Nat.strongRecOn generalizing before rest with
  | _ size ih =>
  cases rest with
  | nil => rfl
  | cons c rest =>
    simp only [List.length_cons] at bound
    unfold decodeFrom? literalValue
    simp only [from?_append,Option.map_some]
    cases closes : ends.isPrefixOf (c :: rest) with
    | true => rfl
    | false =>
    simp only [Bool.false_eq_true,if_false]
    by_cases plain : c ≠ '\\' ∨ raw = true
    · have more := ih rest.length (by omega) (before ++ [c]) rest rfl
      rw [List.append_assoc,List.singleton_append,utf8Len_concat] at more
      rw [if_pos plain,if_pos plain,more]
      rfl
    rw [if_neg plain,if_neg plain]
    cases rest with
    | nil => rfl
    | cons d rest =>
      simp only [List.length_cons] at bound
      have more := ih rest.length (by omega) (before ++ [c] ++ [d]) rest rfl
      rw [utf8Len_concat,utf8Len_concat] at more
      simp only [List.append_assoc,List.cons_append,List.nil_append] at more
      simp only [more]
      rfl

theorem between_short (quote : Char) (raw : Bool) {more : List Char} (short : more.length < 3) :
    (between [quote] (quote :: quote :: quote :: more)).bind (literalValue raw [quote]) = none ∧
      between [quote,quote,quote] (quote :: quote :: quote :: more) = none := by
  constructor
  · rw [between,if_pos (by simp [List.isPrefixOf])]
    dsimp only
    split
    next =>
      have begins (cs : List Char) : literalValue raw [quote] (quote :: cs) = none := by
        unfold literalValue
        simp [List.isPrefixOf]
      exact begins _
    next => rfl
  · rw [between,if_pos (by simp [List.isPrefixOf])]
    dsimp only
    rw [if_neg]
    · intro ends
      have size := (List.isSuffixOf_iff_suffix.mp ends).length_le
      simp at size
      omega

theorem utf8Len_ge_length (s : List Char) : s.length ≤ utf8Len s := by
  induction s with
  | nil => exact Nat.le_refl 0
  | cons c s ih =>
    have size := c.utf8Size_pos
    rw [List.length_cons,String.utf8Len_cons]
    omega

theorem quoted?_eq (raw : Bool) (body : List Char) :
    quoted? raw body = some (quotedValue raw body) := by
  cases body with
  | nil => rfl
  | cons quote rest =>
    cases isOne : isQuote quote with
    | false => simp [quoted?,quotedValue,isOne]
    | true =>
      -- what is read with a delimiter
      have decoded (ends : List Char) :
          (match between ends (quote :: rest) with
            | some inner => decodeFrom? inner ends raw 0 inner
            | none => some none) =
            some ((between ends (quote :: rest)).bind (literalValue raw ends)) := by
        cases between ends (quote :: rest) with
        | none => rfl
        | some inner => exact decodeFrom?_eq [] inner ends raw
      have first : upTo? 1 (quote :: rest) = some [quote] := by
        have cut := upTo?_append [quote] rest
        rwa [ascii_of_isQuote isOne,List.singleton_append] at cut
      simp only [quoted?,quotedValue,isOne,if_true]
      cases three : [quote,quote,quote].isPrefixOf (quote :: rest) with
      | false => simp [delimiterOf,three,first,decoded]
      | true =>
        obtain ⟨more,same⟩ := List.isPrefixOf_iff_prefix.mp three
        by_cases room : 6 ≤ (quote :: rest).length
        · have bytes := room.trans (utf8Len_ge_length (quote :: rest))
          simp only [delimiterOf,three,decide_eq_true room,decide_eq_true bytes,Bool.and_self,if_true,
            Option.bind_some,decoded]
        · have short : more.length < 3 := by
            rw [← same] at room
            simp only [List.length_append,List.length_cons,List.length_nil] at room
            omega
          obtain ⟨single,triple⟩ := between_short quote raw short
          have cells : quote :: quote :: quote :: more = quote :: rest := same
          rw [cells] at single triple
          simp only [delimiterOf,decide_eq_false room,Bool.false_and,Bool.false_eq_true,if_false,single]
          split
          next => rw [Option.bind_some,decoded,triple]; rfl
          next => rw [first,Option.bind_some,decoded,single]

theorem string?_eq (s : List Char) : string? s = some (literal? s) := by
  cases s with
  | nil => rfl
  | cons c rest =>
    simp only [string?,literal?]
    split
    next => exact quoted?_eq true rest
    next => exact quoted?_eq false (c :: rest)

def keyed? (part : List Char) : Option (Option (List Char × List Char)) :=
  if '=' ∈ part then do
    let key ← upTo? (utf8Len (part.takeWhile (· != '='))) part
    let rest ← from? (utf8Len (part.takeWhile (· != '=')) + 1) part
    if rest.head? = some '=' ∨ Text.isIdentifier (Text.trim key) = false then some none
    else some (some (Text.trim key,Text.trim rest))
  else some none

def called? (s : List Char) : Option (Option (List Char × List Char)) :=
  if '(' ∈ s then do
    let opening := utf8Len (s.takeWhile (· != '('))
    let function ← upTo? opening s
    if isDottedName (Text.trim function) then
      match ← callBody? s opening with
      | .ok (body,stop) =>
        some (if stop = utf8Len s then some (Text.trim function,body) else none)
      | .error _ => some none
    else some none
  else some none

theorem split_first {c : Char} {cells : List Cell} (inside : c ∈ text cells) :
    ∃ x back, cells.dropWhile (fun x => x.char != c) = x :: back ∧ x.char = c ∧
      cells = cells.takeWhile (fun x => x.char != c) ++ x :: back := by
  cases behind : cells.dropWhile fun x => x.char != c with
  | nil =>
    obtain ⟨y,member,char⟩ := List.mem_map.mp inside
    have all := List.dropWhile_eq_nil_iff.mp behind y member
    simp [char] at all
  | cons x back =>
    have stops := List.head?_dropWhile_not (fun x : Cell => x.char != c) cells
    rw [behind] at stops
    exact ⟨x,back,rfl,by simpa using stops,by rw [← behind,List.takeWhile_append_dropWhile]⟩

theorem takeWhile_text (c : Char) (cells : List Cell) :
    (text cells).takeWhile (· != c) = text (cells.takeWhile fun x => x.char != c) := by
  rw [text,text,List.takeWhile_map]
  rfl

theorem dropWhile_of_absent {c : Char} {cells : List Cell} (absent : c ∉ text cells) :
    cells.dropWhile (fun x => x.char != c) = [] := by
  rw [List.dropWhile_eq_nil_iff]
  intro x inside
  have other : x.char ≠ c := by
    rintro rfl
    exact absent (List.mem_map_of_mem inside)
  simpa using other

theorem keyed?_eq (cells : List Cell) :
    keyed? (text cells) =
      some ((keyParts? cells).map fun (key,value) => (key,Text.trim (text value))) := by
  unfold keyed? keyParts?
  by_cases inside : '=' ∈ text cells
  · obtain ⟨x,back,behind,sign,whole⟩ := split_first inside
    rw [if_pos inside,behind,takeWhile_text]
    generalize cells.takeWhile (fun x => x.char != '=') = front at whole
    have chars : text cells = text front ++ x.char :: text back := by rw [whole,text_append,text_cons]
    have key : upTo? (utf8Len (text front)) (text cells) = some (text front) := by
      rw [chars,upTo?_append]
    have value : from? (utf8Len (text front) + 1) (text cells) = some (text back) := by
      rw [chars,from?_cons _ (by rw [sign]; rfl)]
    have first : (text back).head? = back.head?.map (·.char) := List.head?_map
    simp only [key,value,Option.bind_eq_bind,Option.bind_some,first]
    by_cases refused : back.head?.map (·.char) = some '=' ∨
        Text.isIdentifier (Text.trim (text front)) = false
    · rw [if_pos refused,if_pos (by simpa using refused)]
      rfl
    · rw [if_neg refused,if_neg (by simpa using refused)]
      rfl
  · rw [if_neg inside,dropWhile_of_absent inside]
    rfl

theorem isQuote_of_isDottedName {s : List Char} (dotted : isDottedName (Text.trim s) = true) :
    ∀ c ∈ s, isQuote c = false := by
  intro c inside
  rcases mem_trim_or inside with blank | kept
  · exact isQuote_of_isBlank blank
  · exact (inked_of_dotted dotted c kept).plain.quote

theorem called?_eq {cells : List Cell} (settled : Settled false cells) :
    called? (text cells) =
      some ((callParts? cells).map fun (function,inside) => (function,text inside)) := by
  unfold called? callParts?
  by_cases inside : '(' ∈ text cells
  · obtain ⟨x,back,behind,opens,whole⟩ := split_first inside
    rw [if_pos inside,behind,takeWhile_text]
    generalize cells.takeWhile (fun x => x.char != '(') = front at whole
    have chars : text cells = text front ++ x.char :: text back := by rw [whole,text_append,text_cons]
    have function : upTo? (utf8Len (text front)) (text cells) = some (text front) := by
      rw [chars,upTo?_append]
    simp only [function,Option.bind_eq_bind,Option.bind_some]
    cases dotted : isDottedName (Text.trim (text front)) with
    | false =>
      simp only [Bool.false_eq_true,if_false]
      split <;> rfl
    | true =>
      have bracket : opensBracket x.char = true := by rw [opens]; rfl
      -- no literal begins in front of the parenthesis
      rw [whole] at settled
      have scanned : scan (x.char :: text back) = x :: back :=
        settled.afterPlain (isQuote_of_isDottedName dotted)
      have body := callBody?_eq (text front) bracket (text back)
      rw [scanned,← chars] at body
      simp only [body,Option.bind_some,if_true]
      cases closed : enclosed? (x :: back) with
      | none => rfl
      | some parts =>
        obtain ⟨within,later⟩ := parts
        have last := end_iff closed
        have size : utf8Len (text front ++ x.char :: text within) + 1 = utf8Len (text cells) ↔
            later = [] := by
          rw [← last,chars,String.utf8Len_append,String.utf8Len_append,String.utf8Len_cons,text_cons,
            String.utf8Len_cons,utf8Size_of_bracket (.inl bracket)]
          omega
        cases later with
        | nil => simp only [if_pos (size.mpr rfl)]; rfl
        | cons y later => simp only [if_neg fun same => by cases size.mp same]; rfl
  · rw [if_neg inside,dropWhile_of_absent inside]
    rfl

def listed? (s : List Char) : Option (List Char) :=
  match s with
  | '[' :: rest => if rest.getLast? = some ']' then some rest.dropLast else none
  | _ => none

def argument? (read : List Char → Option Value) (part : List Char) : Option (Argument Value) :=
  (keyed? (Text.trim part)).bind fun keyed =>
    match keyed with
    | some (key,value) => (read value).map fun v => ⟨some (String.ofList key),v⟩
    | none => (read (Text.trim part)).map fun v => ⟨none,v⟩

def readValueFrom? : Nat → List Char → Option Value
  | 0,s => some (.other (String.ofList s))
  | n + 1,s =>
    let s := Text.trim s
    match keyword? s with
    | some v => some v
    | none =>
    (string? s).bind fun string =>
    match string with
    | some t => some (.string (String.ofList t))
    | none =>
    match integer? s with
    | some i => some (.int i)
    | none =>
    match listed? s with
    | some inside =>
      (splitTopLevel? inside ',').bind fun parts =>
        (parts.mapM (readValueFrom? n)).map .list
    | none =>
    (called? s).bind fun call =>
    match call with
    | some (function,inside) =>
      (splitTopLevel? inside ',').bind fun parts =>
        (parts.mapM (argument? (readValueFrom? n))).map (.call (String.ofList function))
    | none => some (if isDottedName s then .name (String.ofList s) else .other (String.ofList s))

def readArguments? (s : List Char) : Option Arguments :=
  (splitTopLevel? s ',').bind fun parts =>
    parts.mapM (argument? fun value => readValueFrom? (value.length + 1) value)

theorem listed?_eq (cells : List Cell) : listed? (text cells) = (listBody? cells).map text := by
  cases cells with
  | nil => rfl
  | cons x rest =>
    have last : (text rest).getLast? = rest.getLast?.map (·.char) := List.getLast?_map
    have inner : (text rest).dropLast = text rest.dropLast := List.map_dropLast.symm
    by_cases opens : x.char = '['
    · have first : listed? (text (x :: rest)) =
          if (text rest).getLast? = some ']' then some (text rest).dropLast else none := by
        rw [text_cons,opens]
        rfl
      rw [first,last,inner,listBody?]
      by_cases closes : rest.getLast?.map (·.char) = some ']'
      · simp [opens,closes]
      · simp [closes]
    · have other : listed? (text (x :: rest)) = none := by
        rw [text_cons]
        unfold listed?
        split
        next same => exact absurd (List.cons.inj same).1 opens
        next => rfl
      rw [other]
      simp [listBody?,opens]

theorem argument?_eq {read : List Char → Option Value} {read' : List Cell → Value} {part : List Cell}
    (settled : Settled false part)
    (alike : ∀ cells : List Cell, cells.length ≤ part.length → Settled false cells →
      read (text (trimCells cells)) = some (read' cells)) :
    argument? read (text part) = some ⟨(splitArgument part).1,read' (splitArgument part).2⟩ := by
  have small := length_splitArgument_le part
  have inner := settled.splitArgument
  rw [argument?,← text_trimCells,keyed?_eq,Option.bind_some]
  unfold splitArgument at small inner ⊢
  cases parts : keyParts? (trimCells part) with
  | some found =>
    obtain ⟨key,value⟩ := found
    rw [parts] at small inner
    simp only [Option.map_some,← text_trimCells,alike value small inner]
  | none => simp only [Option.map_none,alike part (Nat.le_refl _) settled,Option.map_some]

/-- Depth beyond what the cells need changes nothing. -/
theorem readValueFrom_stable {cells : List Cell} {n m : Nat} (enough : cells.length < n)
    (enough' : cells.length < m) : readValueFrom n cells = readValueFrom m cells := by
  induction n generalizing cells m with
  | zero => omega
  | succ n ih =>
    cases m with
    | zero => omega
    | succ m =>
      have trimmed := length_trimCells_le cells
      simp only [readValueFrom]
      split
      next => rfl
      next =>
      split
      next => rfl
      next =>
      split
      next => rfl
      next =>
      split
      next inside body =>
        have less := length_of_listBody? body
        congr 1
        refine List.map_congr_left fun part member => ?_
        have small := length_of_splitTopLevel member
        exact ih (by omega) (by omega)
      next =>
      split
      next function inside parts =>
        have less := length_of_callParts? parts
        congr 1
        refine List.map_congr_left fun part member => ?_
        have small := Nat.le_trans (length_splitArgument_le part) (length_of_splitTopLevel member)
        rw [ih (m := m) (by omega) (by omega)]
      next => rfl

theorem readValueFrom_trim (n : Nat) (cells : List Cell) :
    readValueFrom (n + 1) (trimCells cells) = readValueFrom (n + 1) cells := by
  simp only [readValueFrom,trimCells_of_trimmed (trimmed_trimCells cells)]

theorem readValueFrom?_trim (n : Nat) (cells : List Cell) :
    readValueFrom? (n + 1) (text (trimCells cells)) = readValueFrom? (n + 1) (text cells) := by
  have again : Text.trim (text (trimCells cells)) = Text.trim (text cells) := by
    rw [← text_trimCells,trimCells_of_trimmed (trimmed_trimCells cells),text_trimCells]
  simp only [readValueFrom?,again]

theorem comma_flat : (opensBracket ',' || closesBracket ',') = false := rfl

/-- A value is read without fail. -/
theorem readValueFrom?_eq {cells : List Cell} {n : Nat} (enough : cells.length < n)
    (settled : Settled false cells) : readValueFrom? n (text cells) = some (readValueFrom n cells) := by
  induction n generalizing cells with
  | zero => omega
  | succ n ih =>
    have trimmed := length_trimCells_le cells
    replace settled := settled.trimCells
    simp only [readValueFrom?,readValueFrom,← text_trimCells]
    generalize trimCells cells = cells at trimmed settled
    cases keyword? (text cells) with
    | some v => rfl
    | none =>
    simp only [string?_eq,Option.bind_some]
    cases literal? (text cells) with
    | some s => rfl
    | none =>
    cases integer? (text cells) with
    | some i => rfl
    | none =>
    simp only [listed?_eq]
    cases body : listBody? cells with
    | some inside =>
      have less := length_of_listBody? body
      have inner := settled.listBody? body
      have scanned : scan (text inside) = inside := inner
      have values : ∀ part ∈ splitTopLevel ',' inside,
          readValueFrom? n (text part) = some (readValueFrom n part) := fun part member =>
        ih (Nat.lt_of_le_of_lt (length_of_splitTopLevel member) (by omega))
          (inner.splitTopLevel member)
      simp only [Option.map_some,splitTopLevel?_eq comma_flat,scanned,Option.bind_some,
        mapM_of_forall values]
    | none =>
    simp only [Option.map_none,called?_eq settled,Option.bind_some]
    cases parts : callParts? cells with
    | some call =>
      obtain ⟨function,inside⟩ := call
      have less := length_of_callParts? parts
      have inner := settled.callParts? parts
      have scanned : scan (text inside) = inside := inner
      have arguments : ∀ part ∈ splitTopLevel ',' inside,
          argument? (readValueFrom? n) (text part) =
            some ⟨(splitArgument part).1,readValueFrom n (splitArgument part).2⟩ := by
        intro part member
        have small := length_of_splitTopLevel member
        refine argument?_eq (inner.splitTopLevel member) fun cells fewer settled => ?_
        cases n with
        | zero => omega
        | succ n => rw [readValueFrom?_trim,ih (by omega) settled]
      simp only [Option.map_some,splitTopLevel?_eq comma_flat,scanned,Option.bind_some,
        mapM_of_forall arguments]
    | none =>
      simp only [Option.map_none]

theorem readArguments?_eq (s : List Char) : readArguments? s = some (readArguments s) := by
  have settled : Settled false (scan s) := settled_scan s
  rw [readArguments?,splitTopLevel?_eq comma_flat,Option.bind_some,readArguments]
  refine mapM_of_forall fun part member => ?_
  refine argument?_eq (settled.splitTopLevel member) fun cells fewer inner => ?_
  have trimmed := length_trimCells_le cells
  rw [length_text,readValueFrom?_eq (Nat.lt_succ_self _) inner.trimCells,
    readValueFrom_stable (Nat.lt_succ_self _) (Nat.lt_succ_of_le trimmed),readValueFrom_trim,readCells]

end PipelineAtlas.Offset
