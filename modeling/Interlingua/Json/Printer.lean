import Interlingua.Json.Value

namespace Interlingua.Json

def hexDigit (n : Nat) : Char := Nat.digitChar (n % 16)

/-- A character inside a string. Only what must be escaped is. -/
def escape (c : Char) : List Char :=
  match c with
  | '\"' => ['\\', '\"']
  | '\\' => ['\\', '\\']
  | '\n' => ['\\', 'n']
  | '\r' => ['\\', 'r']
  | '\t' => ['\\', 't']
  | '\x08' => ['\\', 'b']
  | '\x0c' => ['\\', 'f']
  | c =>
    if c.toNat < 0x20 then ['\\', 'u', '0', '0', hexDigit (c.toNat / 16), hexDigit c.toNat]
    else [c]

def putString (s : String) (rest : List Char) : List Char :=
  '\"' :: (s.toList.flatMap escape ++ '\"' :: rest)

mutual

/-- Writes the value in front of a text, without blanks. -/
def put : Json → List Char → List Char
  | null, rest => 'n' :: 'u' :: 'l' :: 'l' :: rest
  | bool true, rest => 't' :: 'r' :: 'u' :: 'e' :: rest
  | bool false, rest => 'f' :: 'a' :: 'l' :: 's' :: 'e' :: rest
  | natural n, rest => Nat.toDigits 10 n ++ rest
  | number literal, rest => literal.toList ++ rest
  | string s, rest => putString s rest
  | array [], rest => '[' :: ']' :: rest
  | array (v :: vs), rest => '[' :: v.put (putItems vs rest)
  | object [], rest => '{' :: '}' :: rest
  | object (m :: ms), rest => '{' :: putMember m (putMembers ms rest)
termination_by structural v => v

def putItems : List Json → List Char → List Char
  | [], rest => ']' :: rest
  | v :: vs, rest => ',' :: v.put (putItems vs rest)
termination_by structural vs => vs

def putMember : String × Json → List Char → List Char
  | (key, v), rest => putString key (':' :: v.put rest)
termination_by structural m => m

def putMembers : List (String × Json) → List Char → List Char
  | [], rest => '}' :: rest
  | m :: ms, rest => ',' :: putMember m (putMembers ms rest)
termination_by structural ms => ms

end

def print (v : Json) : String := String.ofList (v.put [])

end Interlingua.Json
