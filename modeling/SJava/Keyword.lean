import SJava.Text.Blank

/-!
# Keywords

The words of the language that name something fixed.
-/

namespace SJava.Keyword

/-! The names of the types. -/

def intWord : Text := ['i', 'n', 't']
def doubleWord : Text := ['d', 'o', 'u', 'b', 'l', 'e']
def booleanWord : Text := ['b', 'o', 'o', 'l', 'e', 'a', 'n']
def charWord : Text := ['c', 'h', 'a', 'r']
def stringWord : Text := ['S', 't', 'r', 'i', 'n', 'g']

/-! The words that a statement or a header starts with, and the modifier of a declaration. -/

def ifWord : Text := ['i', 'f']
def whileWord : Text := ['w', 'h', 'i', 'l', 'e']
def returnWord : Text := ['r', 'e', 't', 'u', 'r', 'n']
def voidWord : Text := ['v', 'o', 'i', 'd']
def finalWord : Text := ['f', 'i', 'n', 'a', 'l']

/-! The literals that are words. -/

def trueWord : Text := ['t', 'r', 'u', 'e']
def falseWord : Text := ['f', 'a', 'l', 's', 'e']

/-- The words that name no variable and no method. -/
def reserved : List Text :=
  [intWord, doubleWord, booleanWord, charWord, stringWord, ifWord, whileWord, returnWord, voidWord,
    finalWord, trueWord, falseWord]

end SJava.Keyword
