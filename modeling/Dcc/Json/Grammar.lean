import Dcc.Json.Dom
import Dcc.Json.Utf8

/-!
# The grammar of JSON

RFC 8259 over byte strings, written without the parsers: which bytes spell a
value, and which value they spell.  A number is its own spelling, a string is
the list of its characters, and the bytes of a string in a tree are the UTF-8
encoding of those characters.

* `Number`, `Spells`, `Chars`: the tokens;
* `Derives`: values, items and members, with the whitespace around them;
* `Text`: one value surrounded by whitespace.
-/

namespace Dcc.Json.Grammar

/-- `ws`: space, tab, line feed, carriage return. -/
def Ws (w : Bytes) : Prop := ∀ c ∈ w, c = 0x20 ∨ c = 0x09 ∨ c = 0x0a ∨ c = 0x0d

/-- `DIGIT`. -/
def Digit (c : UInt8) : Prop := 0x30 ≤ c ∧ c ≤ 0x39

/-- `1*DIGIT`. -/
def Digits (w : Bytes) : Prop := w ≠ [] ∧ ∀ c ∈ w, Digit c

/-- `int`: a zero, or digits that do not start with one. -/
inductive Int : Bytes → Prop
  | zero : Int [0x30]
  | digits {c : UInt8} {w : Bytes} (hc : 0x31 ≤ c ∧ c ≤ 0x39) (hw : ∀ d ∈ w, Digit d) : Int (c :: w)

/-- The optional `frac`. -/
inductive Frac : Bytes → Prop
  | absent : Frac []
  | present {w : Bytes} (hw : Digits w) : Frac (0x2e :: w)

/-- The optional `exp`. -/
inductive Exp : Bytes → Prop
  | absent : Exp []
  | present {e : UInt8} {sign w : Bytes} (he : e = 0x65 ∨ e = 0x45)
      (hsign : sign = [] ∨ sign = [0x2b] ∨ sign = [0x2d]) (hw : Digits w) :
      Exp (e :: (sign ++ w))

/-- `number`. -/
inductive Number : Bytes → Prop
  | mk {minus int frac exp : Bytes} (hminus : minus = [] ∨ minus = [0x2d]) (hint : Int int)
      (hfrac : Frac frac) (hexp : Exp exp) : Number (minus ++ (int ++ (frac ++ exp)))

/-- Four hexadecimal digits and their number. -/
inductive Hex4 : Bytes → Nat → Prop
  | mk {a b c d : UInt8} {i j k l : Nat} (ha : hexValue a = some i) (hb : hexValue b = some j)
      (hc : hexValue c = some k) (hd : hexValue d = some l) :
      Hex4 [a, b, c, d] (((i * 16 + j) * 16 + k) * 16 + l)

/-- The escapes of one letter. -/
def escapes : List (UInt8 × Char) :=
  [(0x22, '"'), (0x5c, '\\'), (0x2f, '/'), (0x62, '\x08'), (0x66, '\x0c'), (0x6e, '\n'),
    (0x72, '\r'), (0x74, '\t')]

/-- `char`: the ways to spell one character of a string. -/
inductive Spells : Bytes → Char → Prop
  | plain {c : Char} (hctl : 0x20 ≤ c.toNat) (hquote : c.toNat ≠ 0x22)
      (hback : c.toNat ≠ 0x5c) : Spells (encode c) c
  | short {esc : UInt8} {c : Char} (h : (esc, c) ∈ escapes) : Spells [0x5c, esc] c
  | unicode {h : Bytes} {n : Nat} {c : Char} (hh : Hex4 h n) (hc : c.toNat = n) :
      Spells (0x5c :: 0x75 :: h) c
  | pair {h l : Bytes} {hi lo : Nat} {c : Char} (hh : Hex4 h hi) (hl : Hex4 l lo)
      (hhi : 0xd800 ≤ hi ∧ hi ≤ 0xdbff) (hlo : 0xdc00 ≤ lo ∧ lo ≤ 0xdfff)
      (hc : c.toNat = 0x10000 + (hi - 0xd800) * 0x400 + (lo - 0xdc00)) :
      Spells (0x5c :: 0x75 :: (h ++ 0x5c :: 0x75 :: l)) c

/-- `*char`. -/
inductive Chars : Bytes → List Char → Prop
  | nil : Chars [] []
  | cons {u raw : Bytes} {c : Char} {cs : List Char} (hu : Spells u c) (hraw : Chars raw cs) :
      Chars (u ++ raw) (c :: cs)

/-- The characters of a string in a tree. -/
def utf8 (cs : List Char) : Bytes := cs.flatMap encode

/-- What a phrase of the grammar stands for. -/
inductive Phrase
  | value (v : Value)
  | item (v : Value)
  | items (vs : List Value)
  | member (key : Bytes) (v : Value)
  | members (entries : List (Bytes × Value))

/-- `value`, `array`, `object` and `member`.  An item is a value with the
whitespace around it. -/
inductive Derives : Phrase → Bytes → Prop
  | null : Derives (.value .null) litNull
  | true : Derives (.value (.bool true)) litTrue
  | false : Derives (.value (.bool false)) litFalse
  | number {t : Bytes} (h : Number t) : Derives (.value (.number t)) t
  | string {raw : Bytes} {cs : List Char} (h : Chars raw cs) :
      Derives (.value (.string (utf8 cs))) (0x22 :: (raw ++ [0x22]))
  | emptyArray {w : Bytes} (hw : Ws w) : Derives (.value (.array [])) (0x5b :: (w ++ [0x5d]))
  | array {t : Bytes} {vs : List Value} (h : Derives (.items vs) t) :
      Derives (.value (.array vs)) (0x5b :: (t ++ [0x5d]))
  | emptyObject {w : Bytes} (hw : Ws w) : Derives (.value (.object [])) (0x7b :: (w ++ [0x7d]))
  | object {t : Bytes} {entries : List (Bytes × Value)} (h : Derives (.members entries) t) :
      Derives (.value (.object entries)) (0x7b :: (t ++ [0x7d]))
  | item {a t b : Bytes} {v : Value} (ha : Ws a) (h : Derives (.value v) t) (hb : Ws b) :
      Derives (.item v) (a ++ (t ++ b))
  | lastItem {t : Bytes} {v : Value} (h : Derives (.item v) t) : Derives (.items [v]) t
  | moreItems {t rest : Bytes} {v : Value} {vs : List Value} (h : Derives (.item v) t)
      (hrest : Derives (.items vs) rest) : Derives (.items (v :: vs)) (t ++ 0x2c :: rest)
  | member {a raw b t : Bytes} {cs : List Char} {v : Value} (ha : Ws a) (hkey : Chars raw cs)
      (hb : Ws b) (h : Derives (.item v) t) :
      Derives (.member (utf8 cs) v) (a ++ 0x22 :: (raw ++ 0x22 :: (b ++ 0x3a :: t)))
  | lastMember {t key : Bytes} {v : Value} (h : Derives (.member key v) t) :
      Derives (.members [(key, v)]) t
  | moreMembers {t rest key : Bytes} {v : Value} {entries : List (Bytes × Value)}
      (h : Derives (.member key v) t) (hrest : Derives (.members entries) rest) :
      Derives (.members ((key, v) :: entries)) (t ++ 0x2c :: rest)

/-- `JSON-text`: the input is one value surrounded by whitespace. -/
def Text (v : Value) (input : Bytes) : Prop := Derives (.item v) input

end Dcc.Json.Grammar
