import PipelineAtlas.Text.Number

/-! Cron lines: six fields for second, minute, hour, day of month, month and day of week, and an
optional seventh for the year. Fields need no blanks between them. A reader takes a text and gives
what it read with the text after it. -/
namespace PipelineAtlas.Cron

/-- What a field may say: the least and the greatest number, the names of numbers, and whether a
question mark may stand for any number. -/
structure FieldKind where
  least : Nat
  greatest : Nat
  names : List (String × Nat)
  allowsQuestion : Bool
deriving Repr

inductive Span where
  | all
  | one (n : Nat)
  | range (first last : Nat)
  | named (first last : List Char)
deriving DecidableEq, Repr

inductive Item where
  | span (s : Span)
  | stepped (s : Span) (step : Nat)
  | name (text : List Char)
deriving DecidableEq, Repr

def second : FieldKind := ⟨0,59,[],false⟩

def minute : FieldKind := ⟨0,59,[],false⟩

def hour : FieldKind := ⟨0,23,[],false⟩

def dayOfMonth : FieldKind := ⟨1,31,[],true⟩

def month : FieldKind := ⟨1,12,
  [("jan",1),("january",1),("feb",2),("february",2),("mar",3),("march",3),
    ("apr",4),("april",4),("may",5),("jun",6),("june",6),("jul",7),("july",7),
    ("aug",8),("august",8),("sep",9),("september",9),("oct",10),("october",10),
    ("nov",11),("november",11),("dec",12),("december",12)],false⟩

def dayOfWeek : FieldKind := ⟨1,7,
  [("sun",1),("sunday",1),("mon",2),("monday",2),("tue",3),("tues",3),
    ("tuesday",3),("wed",4),("wednesday",4),("thu",5),("thurs",5),("thursday",5),
    ("fri",6),("friday",6),("sat",7),("saturday",7)],true⟩

def year : FieldKind := ⟨1970,2100,[],false⟩

def isGap (c : Char) : Bool := c == ' ' || c == '\t' || c == '\r' || c == '\n'

def skipGap (s : List Char) : List Char := s.dropWhile isGap

def takeNumber (s : List Char) : Option (Nat × List Char) :=
  let s := skipGap s
  (Text.decimal? 0xFFFFFFFF (s.takeWhile Char.isDigit)).map fun n =>
    (n,skipGap (s.dropWhile Char.isDigit))

def takeName (s : List Char) : Option (List Char × List Char) :=
  let s := skipGap s
  let name := s.takeWhile Char.isAlpha
  if name.isEmpty then none else some (name,skipGap (s.dropWhile Char.isAlpha))

def takeRange (s : List Char) : Option (Span × List Char) := do
  let (first,s) ← takeNumber s
  let s ← Text.skipChar '-' s
  let (last,s) ← takeNumber s
  some (.range first last,s)

def takeNamedRange (s : List Char) : Option (Span × List Char) := do
  let (first,s) ← takeName s
  let s ← Text.skipChar '-' s
  let (last,s) ← takeName s
  some (.named first last,s)

def takeSpan (kind : FieldKind) (s : List Char) : Option (Span × List Char) :=
  (if kind.allowsQuestion then (Text.skipChar '?' s).map fun rest => (Span.all,rest) else none) <|>
    (Text.skipChar '*' s).map (fun rest => (Span.all,rest)) <|>
    takeRange s <|>
    (takeNumber s).map (fun (n,rest) => (Span.one n,rest)) <|>
    takeNamedRange s

def takeStepped (kind : FieldKind) (s : List Char) : Option (Item × List Char) := do
  let (span,s) ← takeSpan kind s
  let s ← Text.skipChar '/' s
  let (step,s) ← takeNumber s
  some (.stepped span step,s)

def takeItem (kind : FieldKind) (s : List Char) : Option (Item × List Char) :=
  takeStepped kind s <|>
    (takeSpan kind s).map (fun (span,rest) => (Item.span span,rest)) <|>
    (takeName s).map (fun (name,rest) => (Item.name name,rest))

/-- Further items, each after a comma. A comma that no item follows is left in the text. -/
def takeMore (kind : FieldKind) : Nat → List Char → List Item × List Char
  | 0,s => ([],s)
  | fuel + 1,s =>
    match (Text.skipChar ',' s).bind (takeItem kind) with
    | some (item,rest) =>
      let (items,rest) := takeMore kind fuel rest
      (item :: items,rest)
    | none => ([],s)

def FieldKind.number? (kind : FieldKind) (name : List Char) : Option Nat :=
  (kind.names.find? fun p => p.1.toList == name.map Char.toLower).map (·.2)

def FieldKind.admits (kind : FieldKind) (n : Nat) : Bool :=
  decide (kind.least ≤ n) && decide (n ≤ kind.greatest)

def FieldKind.admitsRange (kind : FieldKind) (first last : Nat) : Bool :=
  kind.admits first && kind.admits last && decide (first ≤ last)

def FieldKind.admitsSpan (kind : FieldKind) : Span → Bool
  | .all => true
  | .one n => kind.admits n
  | .range first last => kind.admitsRange first last
  | .named first last =>
    match kind.number? first,kind.number? last with
    | some m,some n => kind.admitsRange m n
    | _,_ => false

def FieldKind.admitsItem (kind : FieldKind) : Item → Bool
  | .span s => kind.admitsSpan s
  | .stepped s step => kind.admitsSpan s && decide (1 ≤ step) && decide (step ≤ kind.greatest)
  | .name text => (kind.number? text).any kind.admits

def takeField (kind : FieldKind) (s : List Char) : Option (List Item × List Char) := do
  let (item,rest) ← takeItem kind (skipGap s)
  let (items,rest) := takeMore kind rest.length rest
  if (item :: items).all kind.admitsItem then some (item :: items,skipGap rest) else none

structure Line where
  second : List Item
  minute : List Item
  hour : List Item
  dayOfMonth : List Item
  month : List Item
  dayOfWeek : List Item
  year : Option (List Item)
deriving DecidableEq, Repr

def read? (s : List Char) : Option Line := do
  let (sec,s) ← takeField second s
  let (min,s) ← takeField minute s
  let (hr,s) ← takeField hour s
  let (dom,s) ← takeField dayOfMonth s
  let (mon,s) ← takeField month s
  let (dow,s) ← takeField dayOfWeek s
  let line : Line := ⟨sec,min,hr,dom,mon,dow,none⟩
  if s.isEmpty then some line
  else
    let (yr,s) ← takeField year s
    if s.isEmpty then some { line with year := some yr } else none

end PipelineAtlas.Cron
