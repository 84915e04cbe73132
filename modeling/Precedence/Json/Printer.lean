import Precedence.Document
import Precedence.Json.Quoted
/-! Writing a document as JSON on one line, without blanks, with the fields of a table in the order
they have. -/
namespace Precedence.Json

mutual
def printChars : Document → List Char
  | .null => ['n', 'u', 'l', 'l']
  | .boolean true => ['t', 'r', 'u', 'e']
  | .boolean false => ['f', 'a', 'l', 's', 'e']
  | .integer n => (Text.integerText n).toList
  | .decimal literal => literal.toList
  | .moment literal => quoted literal
  | .text s => quoted s
  | .list [] => ['[', ']']
  | .list (d :: rest) => '[' :: printChars d ++ printItems rest
  | .table [] => ['\x7b', '\x7d']
  | .table ((k, d) :: rest) => '\x7b' :: quoted k ++ ':' :: printChars d ++ printFields rest

/-- The items after the first, to the end of the list. -/
def printItems : List Document → List Char
  | [] => [']']
  | d :: rest => ',' :: printChars d ++ printItems rest

def printFields : List (String × Document) → List Char
  | [] => ['\x7d']
  | (k, d) :: rest => ',' :: quoted k ++ ':' :: printChars d ++ printFields rest
end

def print (d : Document) : String := String.ofList (printChars d)

end Precedence.Json
