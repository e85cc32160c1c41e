import PipelineAtlas.Proofs.Offset.Text
import PipelineAtlas.Proofs.Script.Level

/-! Cutting a text at brackets, separators and marks by offsets. The cuts never fail, and the parts are
those that the cells of the text make. -/
namespace PipelineAtlas.Offset

open Script
open String (utf8Len)

def opensBracket (c : Char) : Bool := c == '(' || c == '[' || c == '{'

def closesBracket (c : Char) : Bool := c == ')' || c == ']' || c == '}'

def depthPast (c : Char) (depth : Nat) : Nat :=
  if opensBracket c then depth + 1 else if closesBracket c then depth - 1 else depth

section Cells

variable {x : Cell}

theorem opens_of_code (code : x.role = .code) : x.opens = opensBracket x.char := by
  simp [Cell.opens,Cell.isCode,code,opensBracket]

theorem closes_of_code (code : x.role = .code) : x.closes = closesBracket x.char := by
  simp [Cell.closes,Cell.isCode,code,closesBracket]

theorem depthAfter_of_code (code : x.role = .code) (depth : Nat) :
    x.depthAfter depth = depthPast x.char depth := by
  rw [Cell.depthAfter,opens_of_code code,closes_of_code code,depthPast]

theorem closes_of_hidden (hidden : x.role ≠ .code) : x.closes = false := by
  simp [Cell.closes,Cell.isCode,hidden]

theorem depthAfter_of_hidden (hidden : x.role ≠ .code) (depth : Nat) : x.depthAfter depth = depth := by
  simp [Cell.depthAfter,Cell.opens,Cell.closes,Cell.isCode,hidden]

theorem utf8Size_of_bracket {c : Char} (bracket : opensBracket c = true ∨ closesBracket c = true) :
    c.utf8Size = 1 := by
  simp only [opensBracket,closesBracket,Bool.or_eq_true,beq_iff_eq] at bracket
  rcases bracket with ((rfl | rfl) | rfl) | ((rfl | rfl) | rfl) <;> rfl

theorem isQuote_of_bracket {c : Char} (bracket : opensBracket c = true ∨ closesBracket c = true) :
    isQuote c = false := by
  simp only [opensBracket,closesBracket,Bool.or_eq_true,beq_iff_eq] at bracket
  rcases bracket with ((rfl | rfl) | rfl) | ((rfl | rfl) | rfl) <;> rfl

end Cells

/-- What a bracket at an offset encloses, and the offset behind its partner, or the line of the bracket
if it has none. -/
abbrev Body := Except Nat (List Char × Nat)

def bodyStep (source : List Char) (opening depth i : Nat) (c : Char) : Option (Nat ⊕ Body) :=
  if closesBracket c ∧ depthPast c depth = 0 then
    (between? (opening + 1) (opening + i) source).map fun body => .inr (.ok (body,opening + i + 1))
  else some (.inl (depthPast c depth))

def callBody? (source : List Char) (opening : Nat) : Option Body :=
  (from? opening source).bind fun rest =>
    each rest (bodyStep source opening) (fun _ => (lineAt? source opening).map .error) 0

theorem overCells_closeFrom (a : List Char) {o : Char} (opens : opensBracket o = true)
    (otherwise : Option Body) (passed : List Char) (depth : Nat) (cells : List Cell)
    {source : List Char} (whole : source = a ++ o :: (passed ++ text cells)) :
    overCells (bodyStep source (utf8Len a)) (fun _ => otherwise) depth (utf8Len (o :: passed)) cells =
      match closeFrom depth cells with
      | some (inside,_) =>
        some (.ok (passed ++ text inside,utf8Len (a ++ o :: (passed ++ text inside)) + 1))
      | none => otherwise := by
  have single : o.utf8Size = 1 := utf8Size_of_bracket (.inl opens)
  induction cells generalizing passed depth with
  | nil => rfl
  | cons x cells ih =>
    have more := ih (passed ++ [x.char]) (x.depthAfter depth) (by simpa using whole)
    rw [← List.cons_append,utf8Len_concat] at more
    -- what is left of the run, if the bracket at hand does not end it
    have goesOn (last : (x.closes && x.depthAfter depth == 0) = false) :
        overCells (bodyStep source (utf8Len a)) (fun _ => otherwise) (x.depthAfter depth)
            (utf8Len (o :: passed) + x.char.utf8Size) cells =
          match closeFrom depth (x :: cells) with
          | some (inside,_) =>
            some (.ok (passed ++ text inside,utf8Len (a ++ o :: (passed ++ text inside)) + 1))
          | none => otherwise := by
      rw [more,closeFrom]
      simp only [last,Bool.false_eq_true,if_false]
      cases closeFrom (x.depthAfter depth) cells with
      | none => rfl
      | some parts => simp
    by_cases code : x.role = .code
    · rw [overCells,if_pos code,bodyStep,← closes_of_code code,← depthAfter_of_code code]
      by_cases last : x.closes = true ∧ x.depthAfter depth = 0
      · have body : between? (utf8Len a + 1) (utf8Len a + utf8Len (o :: passed)) source =
            some passed := by
          have cut := between?_append (a ++ [o]) passed (text (x :: cells))
          rw [String.utf8Len_append _ passed,utf8Len_concat,single] at cut
          rw [whole,String.utf8Len_cons,single,← cut]
          congr 1
          · omega
          · simp
        rw [if_pos last,body,closeFrom]
        simp only [last,beq_self_eq_true,Bool.and_self,if_true]
        simp [text,Nat.add_assoc]
      · rw [if_neg last]
        refine goesOn ?_
        simpa using last
    · rw [overCells,if_neg code]
      have next := goesOn (by rw [closes_of_hidden code]; rfl)
      rwa [depthAfter_of_hidden code] at next

theorem callBody?_eq (a : List Char) {o : Char} (opens : opensBracket o = true) (rest : List Char) :
    callBody? (a ++ o :: rest) (utf8Len a) =
      some (match enclosed? (scan (o :: rest)) with
        | some (inside,_) => .ok (text inside,utf8Len (a ++ o :: text inside) + 1)
        | none => .error (a.count '\n' + 1)) := by
  have plain : isQuote o = false := isQuote_of_bracket (.inl opens)
  have begins : (⟨o,.code⟩ : Cell).opens = true := by rw [opens_of_code rfl,opens]
  have first : closesBracket o = false := by
    have apart := Cell.closes_of_opens begins
    rwa [closes_of_code rfl] at apart
  have whole : a ++ o :: rest = a ++ o :: ([] ++ text (scan rest)) := by simp [scan]
  have run := overCells_closeFrom a opens (some (.error (a.count '\n' + 1))) [] 1 (scan rest) whole
  have step : bodyStep (a ++ o :: rest) (utf8Len a) 0 0 o = some (.inl 1) := by
    simp [bodyStep,first,depthPast,opens]
  have size : (0 : Nat) + o.utf8Size = utf8Len [o] := by simp
  rw [callBody?,from?_append,Option.bind_some,each_eq,scan_plainChar plain,overCells,if_pos rfl,step,
    Option.bind_some,Sum.elim_inl,lineAt?_append,Option.map_some,size,run,enclosed?,if_pos begins]
  cases closeFrom 1 (scan rest) <;> rfl

structure Split where
  depth : Nat
  start : Nat
  parts : List (List Char)

def splitStep (whole : List Char) (separator : Char) (s : Split) (i : Nat) (c : Char) :
    Option (Split ⊕ List (List Char)) :=
  if opensBracket c || closesBracket c then some (.inl { s with depth := depthPast c s.depth })
  else if c = separator ∧ s.depth = 0 then
    (between? s.start i whole).map fun part => .inl ⟨0,i + c.utf8Size,s.parts ++ [part]⟩
  else some (.inl s)

def inked (parts : List (List Char)) : List (List Char) :=
  parts.filter fun part => !(Text.trim part).isEmpty

def splitEnd (whole : List Char) (s : Split) : Option (List (List Char)) :=
  (from? s.start whole).map fun last => inked (s.parts ++ [last])

def splitTopLevel? (whole : List Char) (separator : Char) : Option (List (List Char)) :=
  each whole (splitStep whole separator) (splitEnd whole) ⟨0,0,[]⟩

theorem isEmpty_trimRight (s : List Char) : (Text.trimRight s).isEmpty = s.all Text.isBlank := by
  rw [Bool.eq_iff_iff,List.isEmpty_iff,Text.trimRight,List.reverse_eq_nil_iff,
    List.dropWhile_eq_nil_iff]
  simp

theorem isEmpty_trim (s : List Char) : (Text.trim s).isEmpty = s.all Text.isBlank := by
  rw [Text.trim,isEmpty_trimRight,Bool.eq_iff_iff,List.all_eq_true,List.all_eq_true]
  constructor
  · intro blank c inside
    rw [← List.takeWhile_append_dropWhile (p := Text.isBlank) (l := s)] at inside
    rcases List.mem_append.mp inside with front | back
    · exact List.mem_takeWhile_imp front
    · exact blank c back
  · exact fun blank c inside => blank c ((List.dropWhile_sublist _).mem inside)

theorem isBlankPart_eq (cells : List Cell) : isBlankPart cells = (Text.trim (text cells)).isEmpty := by
  rw [isEmpty_trim,isBlankPart,text,List.all_map]
  rfl

theorem depthPast_of_flat {c : Char} (flat : (opensBracket c || closesBracket c) = false)
    (depth : Nat) : depthPast c depth = depth := by
  obtain ⟨opensNot,closesNot⟩ := Bool.or_eq_false_iff.mp flat
  simp [depthPast,opensNot,closesNot]

theorem overCells_splitFrom {separator : Char}
    (flat : (opensBracket separator || closesBracket separator) = false)
    (front : List Char) (begun cells : List Cell) (depth : Nat) (parts : List (List Char))
    {whole : List Char} (same : whole = front ++ (text begun.reverse ++ text cells)) :
    overCells (splitStep whole separator) (splitEnd whole) ⟨depth,utf8Len front,parts⟩
        (utf8Len (front ++ text begun.reverse)) cells =
      some (inked (parts ++ (splitFrom separator depth begun cells).map text)) := by
  induction cells generalizing front begun depth parts with
  | nil =>
    have last : from? (utf8Len front) whole = some (text begun.reverse) := by
      simp [same,text]
    rw [overCells,splitEnd,last]
    rfl
  | cons x cells ih =>
    have place : utf8Len (front ++ text begun.reverse) + x.char.utf8Size =
        utf8Len (front ++ text (x :: begun).reverse) := by
      rw [← utf8Len_concat,List.reverse_cons,text_append,List.append_assoc]
      rfl
    have more := ih front (x :: begun) (x.depthAfter depth) parts (by
      rw [same,List.reverse_cons,text_append]
      simp [text])
    by_cases cut : (depth = 0 && x.isCode separator) = true
    · obtain ⟨level,code,rfl⟩ : depth = 0 ∧ x.role = .code ∧ x.char = separator := by
        simpa [Cell.isCode] using cut
      have part : between? (utf8Len front) (utf8Len (front ++ text begun.reverse)) whole =
          some (text begun.reverse) := by
        rw [same,between?_append]
      have next := ih (front ++ text begun.reverse ++ [x.char]) [] 0
        (parts ++ [text begun.reverse]) (by simp [same,text])
      rw [overCells,if_pos code,splitStep,flat,if_neg (by decide),if_pos ⟨rfl,level⟩,part,
        Option.map_some,Option.bind_some,Sum.elim_inl,← utf8Len_concat,splitFrom,if_pos cut]
      simpa [text] using next
    · rw [splitFrom,if_neg cut,overCells,place]
      by_cases code : x.role = .code
      · rw [if_pos code,splitStep]
        rw [depthAfter_of_code code] at more
        rw [depthAfter_of_code code]
        split
        next => exact more
        next noBracket =>
          have other : ¬ (x.char = separator ∧ depth = 0) := by
            rintro ⟨rfl,rfl⟩
            simp [Cell.isCode,code] at cut
          rw [depthPast_of_flat (by simpa using noBracket)] at more ⊢
          rw [if_neg other]
          exact more
      · rw [if_neg code]
        rwa [depthAfter_of_hidden code] at more ⊢

theorem splitTopLevel?_eq {separator : Char}
    (flat : (opensBracket separator || closesBracket separator) = false) (s : List Char) :
    splitTopLevel? s separator = some ((splitTopLevel separator (scan s)).map text) := by
  have run := overCells_splitFrom flat [] [] (scan s) 0 [] (text_scan s).symm
  have kept (parts : List (List Cell)) :
      inked (parts.map text) = (parts.filter fun part => !isBlankPart part).map text := by
    rw [inked,List.filter_map]
    congr 1
    exact List.filter_congr fun part _ => by rw [Function.comp_apply,isBlankPart_eq]
  rw [splitTopLevel?,each_eq]
  refine run.trans ?_
  rw [List.nil_append,kept,splitTopLevel]

structure ChainCut where
  depth : Nat
  start : Nat
  operands : List (List Char)
  shifts : List Shift

def shiftStep (whole : List Char) (s : ChainCut) (i : Nat) (c : Char) :
    Option (Step ChainCut (List (List Char) × List Shift)) :=
  if opensBracket c || closesBracket c then some (.goOn { s with depth := depthPast c s.depth })
  else
    match if s.depth = 0 then Shift.ofChar? c else none with
    | some shift =>
      (from? (i + 1) whole).bind fun rest =>
        if rest.head? = some c then
          (between? s.start i whole).map fun operand =>
            .skipTo ⟨0,i + 2,s.operands ++ [operand],s.shifts ++ [shift]⟩ (i + 2)
        else some (.goOn s)
    | none => some (.goOn s)

def shiftEnd (whole : List Char) (s : ChainCut) : Option (List (List Char) × List Shift) :=
  (from? s.start whole).map fun last => (s.operands ++ [last],s.shifts)

def shiftChain? (whole : List Char) : Option (List (List Char) × List Shift) :=
  loop whole (shiftStep whole) (shiftEnd whole) ⟨0,0,[],[]⟩ 0

/-- The operands and the marks of a chain, the first operand behind what has been read of it. -/
def chainParts (begun : List Char) (chain : ShiftChain) : List (List Char) × List Shift :=
  ((begun ++ text chain.first) :: chain.rest.map fun (_,operand) => text operand,
    chain.rest.map (·.1))

theorem chainParts_push (begun : List Char) (x : Cell) (chain : ShiftChain) :
    chainParts begun (chain.push x) = chainParts (begun ++ [x.char]) chain := by
  simp [chainParts,ShiftChain.push]

theorem chainParts_literal (begun s : List Char) (depth : Nat) (cells : List Cell) :
    chainParts begun (shiftChainFrom depth (literalCells s ++ cells)) =
      chainParts (begun ++ s) (shiftChainFrom depth cells) := by
  induction s generalizing begun with
  | nil => simp [literalCells]
  | cons c s ih =>
    have noMark : ∀ y, shiftAt? ⟨c,.literal⟩ y = none := fun y => by simp [shiftAt?]
    have pushed := shiftChainFrom_push noMark depth (literalCells s ++ cells)
    rw [depthAfter_of_hidden (by simp)] at pushed
    calc chainParts begun (shiftChainFrom depth (literalCells (c :: s) ++ cells))
      _ = chainParts (begun ++ [c]) (shiftChainFrom depth (literalCells s ++ cells)) := by
        rw [← chainParts_push begun ⟨c,.literal⟩,← pushed]
        rfl
      _ = chainParts (begun ++ c :: s) (shiftChainFrom depth cells) := by
        rw [ih,List.append_assoc,List.singleton_append]

theorem shiftChainFrom_code {c : Char} {depth : Nat} {behind : List Char}
    (noMark : depth = 0 → behind.head? = some c → Shift.ofChar? c = none) :
    shiftChainFrom depth (⟨c,.code⟩ :: scan behind) =
      (shiftChainFrom (depthPast c depth) (scan behind)).push ⟨c,.code⟩ := by
  have depths := depthAfter_of_code (x := ⟨c,.code⟩) rfl depth
  cases behind with
  | nil => rfl
  | cons d behind =>
    have cells : scan (d :: behind) = ⟨d,(Mode.code.next false d behind).2⟩ ::
      scanFrom false (Mode.code.next false d behind).1 behind := rfl
    have none : (if depth = 0 then
        shiftAt? ⟨c,.code⟩ ⟨d,(Mode.code.next false d behind).2⟩ else none) = none := by
      rw [ite_eq_right_iff]
      intro level
      rw [shiftAt?,ite_eq_right_iff]
      rintro ⟨-,same⟩
      exact noMark level (by simpa using same)
    rw [cells,shiftChainFrom,none]
    simp only [depths]

theorem mark_cases {c : Char} {shift : Shift} (mark : Shift.ofChar? c = some shift) :
    c = '>' ∨ c = '<' := by
  unfold Shift.ofChar? at mark
  split at mark
  next same => exact .inl same
  next =>
    split at mark
    next same => exact .inr same
    next => cases mark

theorem shiftChainFrom_mark {c : Char} {shift : Shift} (mark : Shift.ofChar? c = some shift)
    (behind : List Char) :
    shiftChainFrom 0 (⟨c,.code⟩ :: scan (c :: behind)) =
      (shiftChainFrom 0 (scan behind)).shift shift := by
  have plain : isQuote c = false := by
    rcases mark_cases mark with rfl | rfl <;> rfl
  rw [scan_plainChar plain,shiftChainFrom]
  simp [shiftAt?,mark]

theorem loop_shiftChainFrom (front begun rest : List Char) (depth : Nat)
    (operands : List (List Char)) (shifts : List Shift) {whole : List Char}
    (same : whole = front ++ (begun ++ rest)) :
    loop whole (shiftStep whole) (shiftEnd whole) ⟨depth,utf8Len front,operands,shifts⟩
        (utf8Len (front ++ begun)) =
      some (operands ++ (chainParts begun (shiftChainFrom depth (scan rest))).1,
        shifts ++ (chainParts begun (shiftChainFrom depth (scan rest))).2) := by
  induction bound : rest.length using Nat.strongRecOn
    generalizing front begun rest depth operands shifts with
  | _ size ih =>
  have look := ahead_scan (front ++ begun) rest
  simp only [List.append_assoc,← same] at look
  rcases look with ⟨found,cells⟩ | ⟨skipped,c,behind,rfl,found,cells⟩
  · have last : from? (utf8Len front) whole = some (begun ++ rest) := by rw [same,from?_append]
    rw [loop_of_none found,cells,← List.append_nil (literalCells rest),chainParts_literal,shiftEnd,last]
    simp [chainParts,shiftChainFrom,text]
  · have shorter : behind.length < size := by
      rw [List.length_append,List.length_cons] at bound
      omega
    have whole' : whole = front ++ (begun ++ skipped) ++ c :: behind := by simp [same]
    rw [loop_of_some found,cells,chainParts_literal]
    -- the operand goes on with the character
    have goesOn (noMark : depth = 0 → behind.head? = some c → Shift.ofChar? c = none) :
        loop whole (shiftStep whole) (shiftEnd whole)
            ⟨depthPast c depth,utf8Len front,operands,shifts⟩
            (utf8Len (front ++ (begun ++ skipped)) + c.utf8Size) =
          some (operands ++ (chainParts (begun ++ skipped)
              (shiftChainFrom depth (⟨c,.code⟩ :: scan behind))).1,
            shifts ++ (chainParts (begun ++ skipped)
              (shiftChainFrom depth (⟨c,.code⟩ :: scan behind))).2) := by
      have more := ih behind.length shorter front (begun ++ skipped ++ [c]) behind
        (depthPast c depth) operands shifts (by simp [same]) rfl
      rw [shiftChainFrom_code noMark,chainParts_push,← utf8Len_concat,List.append_assoc]
      exact more
    rw [shiftStep]
    by_cases bracket : (opensBracket c || closesBracket c) = true
    · rw [if_pos bracket]
      refine goesOn fun _ _ => Option.eq_none_iff_forall_ne_some.mpr fun shift mark => ?_
      rcases mark_cases mark with rfl | rfl <;> simp [opensBracket,closesBracket] at bracket
    rw [if_neg bracket]
    rw [depthPast_of_flat (by simpa using bracket)] at goesOn
    cases mark : if depth = 0 then Shift.ofChar? c else none with
    | none =>
      refine goesOn fun level _ => ?_
      rwa [if_pos level] at mark
    | some shift =>
      obtain ⟨rfl,mark⟩ := Option.ite_none_right_eq_some.mp mark
      have single : c.utf8Size = 1 := by
        rcases mark_cases mark with rfl | rfl <;> rfl
      have next : from? (utf8Len (front ++ (begun ++ skipped)) + 1) whole = some behind := by
        rw [whole',from?_cons _ single]
      simp only [next,Option.bind_some]
      by_cases twice : behind.head? = some c
      · obtain ⟨later,rfl⟩ := List.head?_eq_some_iff.mp twice
        have operand : between? (utf8Len front) (utf8Len (front ++ (begun ++ skipped))) whole =
            some (begun ++ skipped) := by
          rw [whole',List.append_assoc,between?_append]
        have two : max (utf8Len (front ++ (begun ++ skipped)) + c.utf8Size)
            (utf8Len (front ++ (begun ++ skipped)) + 2) =
              utf8Len (front ++ (begun ++ skipped)) + 2 := by
          rw [single]
          omega
        have more := ih later.length (by simp at shorter; omega)
          (front ++ (begun ++ skipped) ++ [c] ++ [c]) [] later 0 (operands ++ [begun ++ skipped])
          (shifts ++ [shift]) (by simp [same]) rfl
        rw [List.append_nil,utf8Len_concat,utf8Len_concat,single,Nat.add_assoc] at more
        rw [if_pos twice,operand,Option.map_some]
        simp only [two]
        refine more.trans ?_
        rw [shiftChainFrom_mark mark]
        simp [chainParts,ShiftChain.shift,text]
      · rw [if_neg twice]
        exact goesOn fun _ first => absurd first twice

/-- The operands of a chain and its marks are found without fail. -/
theorem shiftChain?_eq (s : List Char) :
    shiftChain? s = some (chainParts [] (shiftChain (scan s))) :=
  loop_shiftChainFrom [] [] s 0 [] [] rfl

theorem text_trimCells (cells : List Cell) : text (trimCells cells) = Text.trim (text cells) := by
  rw [trimCells,text,text,Text.trim,Text.trimLeft,Text.trimRight,List.dropWhile_map,
    ← List.map_reverse,List.dropWhile_map,← List.map_reverse]
  rfl

theorem length_trim_le (s : List Char) : (Text.trim s).length ≤ s.length := by
  have cells := length_trimCells_le (codeCells s)
  rwa [← length_text,text_trimCells,text_codeCells,← length_text,text_codeCells] at cells

theorem callBody?_start {o : Char} (opens : opensBracket o = true) (rest : List Char) :
    callBody? (o :: rest) 0 = some (match enclosed? (scan (o :: rest)) with
      | some (inside,_) => .ok (text inside,utf8Len (o :: text inside) + 1)
      | none => .error 1) := callBody?_eq [] opens rest

theorem end_iff {cells inside behind : List Cell} (closed : enclosed? cells = some (inside,behind)) :
    utf8Len (text cells) = utf8Len (text inside) + 2 ↔ behind = [] := by
  obtain ⟨x,y,opens,closes,rfl⟩ := enclosed?_split closed
  have first : x.char.utf8Size = 1 := by
    rw [opens_of_code (role_of_opens opens)] at opens
    exact utf8Size_of_bracket (.inl opens)
  have last : y.char.utf8Size = 1 := by
    rw [closes_of_code (role_of_closes closes)] at closes
    exact utf8Size_of_bracket (.inr closes)
  have size : utf8Len (text (x :: (inside ++ y :: behind))) =
      utf8Len (text inside) + 2 + utf8Len (text behind) := by
    rw [text_cons,text_append,text_cons,String.utf8Len_cons,String.utf8Len_append,
      String.utf8Len_cons,first,last]
    omega
  rw [size,Nat.add_eq_left,String.utf8Len_eq_zero,text,List.map_eq_nil_iff]

/-- Takes parentheses off that enclose all of a text without white space around it. -/
def unwrapped? (s : List Char) : Option (List Char) :=
  if _opens : s.head? = some '(' then
    match _body : callBody? s 0 with
    | none => none
    | some (.error _) => some s
    | some (.ok (inner,stop)) => if stop = utf8Len s then unwrapped? (Text.trim inner) else some s
  else some s
termination_by s.length
decreasing_by
  obtain ⟨rest,rfl⟩ := List.head?_eq_some_iff.mp _opens
  rw [callBody?_start rfl] at _body
  cases closed : enclosed? (scan ('(' :: rest)) with
  | none =>
    rw [closed] at _body
    cases _body
  | some parts =>
    obtain ⟨x,y,-,-,cells⟩ := enclosed?_split closed
    rw [closed] at _body
    obtain ⟨rfl,-⟩ := Prod.mk.inj (Except.ok.inj (Option.some.inj _body))
    have size := congrArg List.length cells
    rw [scan,length_scanFrom] at size
    have less := length_trim_le (text parts.1)
    rw [length_text] at less
    simp only [List.length_cons,List.length_append] at size ⊢
    omega

def unwrap? (s : List Char) : Option (List Char) := unwrapped? (Text.trim s)

theorem unwrapped?_of_opening {s : List Char} (opens : s.head? = some '(') :
    unwrapped? s = (callBody? s 0).bind fun body =>
      match body with
      | .error _ => some s
      | .ok (inner,stop) => if stop = utf8Len s then unwrapped? (Text.trim inner) else some s := by
  rw [unwrapped?,dif_pos opens]
  split
  next body => rw [body]; rfl
  next body => rw [body]; rfl
  next body => rw [body]; rfl

theorem unwrapped?_eq {n : Nat} {cells : List Cell} (enough : cells.length ≤ n)
    (settled : Settled false cells) : unwrapped? (text cells) = some (text (unwrapFrom n cells)) := by
  induction n generalizing cells with
  | zero =>
    obtain rfl := List.length_eq_zero_iff.mp (Nat.le_zero.mp enough)
    rw [unwrapped?]
    rfl
  | succ n ih =>
    cases cells with
    | nil =>
      rw [unwrapped?]
      rfl
    | cons x rest =>
      by_cases opens : x.char = '('
      · have bracket : opensBracket x.char = true := by rw [opens]; rfl
        have code := settled.role_head (isQuote_of_bracket (.inl bracket))
        have scanned : scan (x.char :: text rest) = x :: rest := settled
        have body := callBody?_start bracket (text rest)
        rw [scanned,← text_cons] at body
        have first : (text (x :: rest)).head? = some '(' := by rw [text_cons,List.head?_cons,opens]
        have begins : x.isCode '(' = true := by simp [Cell.isCode,code,opens]
        rw [unwrapped?_of_opening first,body,Option.bind_some,unwrapFrom]
        simp only [begins,if_true]
        cases closed : enclosed? (x :: rest) with
        | none => rfl
        | some parts =>
          obtain ⟨inside,behind⟩ := parts
          have size : utf8Len (x.char :: text inside) + 1 = utf8Len (text inside) + 2 := by
            rw [String.utf8Len_cons,utf8Size_of_bracket (.inl bracket)]
          have last := end_iff closed
          simp only [size]
          cases behind with
          | nil =>
            have fewer : inside.length ≤ n := by
              obtain ⟨y,z,-,-,cells⟩ := enclosed?_split closed
              have lengths := congrArg List.length cells
              simp only [List.length_cons,List.length_append] at lengths enough
              omega
            have inner : Settled false inside :=
              Settled.enclosed? (a := []) (by simpa using settled) closed
            rw [if_pos (last.mpr rfl).symm,← text_trimCells]
            exact ih ((length_trimCells_le inside).trans fewer) inner.trimCells
          | cons y behind =>
            rw [if_neg fun same => by cases last.mp same.symm]
      · have first : (text (x :: rest)).head? ≠ some '(' := by
          rw [text_cons,List.head?_cons]
          simpa using opens
        have other : x.isCode '(' = false := by simp [Cell.isCode,opens]
        rw [unwrapped?,dif_neg first,unwrapFrom]
        simp only [other,Bool.false_eq_true,if_false]

theorem unwrap?_eq (s : List Char) : unwrap? s = some (text (unwrap (scan s))) := by
  have settled : Settled false (scan s) := settled_scan s
  have chars : Text.trim s = text (trimCells (scan s)) := by
    rw [text_trimCells,scan,text_scanFrom]
  rw [unwrap?,chars]
  exact unwrapped?_eq (length_trimCells_le _) settled.trimCells

end PipelineAtlas.Offset
