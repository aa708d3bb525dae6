/-
Analyzers: how a text becomes the terms it is indexed and searched by.

A tokenizer cuts the text, and filters change or drop tokens one after another.  A dropped
token leaves its position empty, so that the distance of the others still counts it.
-/
import DocIndex.Analysis.Stem
import DocIndex.Data.Table
import DocIndex.Text.Case
import DocIndex.Text.Words

namespace DocIndex

namespace Analysis

/-- What a token was cut out as; filters pass over numbers. -/
inductive TokenKind where
  | word
  | number
deriving DecidableEq, Repr

/-- A term with its place among the tokens and the number of bytes before it in the text. -/
structure Token where
  text : String
  position : Nat
  offset : Nat
  kind : TokenKind
deriving DecidableEq

/-- How a text is cut into tokens. -/
inductive Tokenizer where
  /-- The words of the text, except those with more bytes than the limit. -/
  | words (maxLength : Nat)
  /-- The whole text. -/
  | whole
deriving DecidableEq

namespace Tokenizer

def name : Tokenizer → String
  | words _ => "standard"
  | whole => "keyword"

/-- Tokens at consecutive positions from the given one. -/
def place (position : Nat) : List (Nat × List Char) → List Token
  | [] => []
  | (offset, word) :: rest =>
    let kind := if word.all Text.isNumeric then TokenKind.number else .word
    ⟨String.ofList word, position, offset, kind⟩ :: place (position + 1) rest

/-- The tokens of a text. -/
def tokens (tokenizer : Tokenizer) (text : String) : List Token :=
  match tokenizer with
  | words maxLength =>
    place 0 ((Text.words text.toList).filter fun (_, word) => Text.byteLength word ≤ maxLength)
  | whole => if text.isEmpty then [] else [⟨text, 0, 0, .word⟩]

end Tokenizer

/-- A change to a list of tokens. -/
inductive Filter where
  /-- Words with a capital letter become lower case. -/
  | lowercase
  /-- The listed terms are dropped. -/
  | stopWords (words : List String)
  /-- Words become their English stems. -/
  | stem
deriving DecidableEq

namespace Filter

def name : Filter → String
  | lowercase => "lowercase"
  | stopWords _ => "stop_words"
  | stem => "stemmer"

/-- The most frequent words of English. -/
def englishStopWords : List String :=
  ["a", "an", "and", "are", "as", "at", "be", "by", "for", "from", "has", "he", "in", "is", "it",
   "its", "of", "on", "that", "the", "to", "was", "will", "with"]

/-- The same tokens with the texts of words changed. -/
def mapWords (change : String → String) (tokens : List Token) : List Token :=
  tokens.map fun t => if t.kind = .word then { t with text := change t.text } else t

/-- Lower case, if the text has an upper case letter. -/
def foldCase (text : String) : String :=
  if text.toList.any Text.isUppercase then Text.lowercase text else text

/-- Applies the filter. -/
def apply (filter : Filter) (tokens : List Token) : List Token :=
  match filter with
  | lowercase => mapWords foldCase tokens
  | stopWords words => tokens.filter fun t => !words.contains t.text
  | stem => mapWords Stem.stem tokens

end Filter

/-- A tokenizer and the filters after it. -/
structure Analyzer where
  tokenizer : Tokenizer
  filters : List Filter
deriving DecidableEq

namespace Analyzer

/-- The tokens of a text. -/
def analyze (analyzer : Analyzer) (text : String) : List Token :=
  analyzer.filters.foldl (fun tokens filter => filter.apply tokens) (analyzer.tokenizer.tokens text)

/-- The longest word in bytes that is kept by default. -/
def defaultMaxLength : Nat := 255

/-- Words in lower case. -/
def standard : Analyzer := ⟨.words defaultMaxLength, [.lowercase]⟩

/-- Stems of words in lower case, without the most frequent ones. -/
def english : Analyzer :=
  ⟨.words defaultMaxLength, [.lowercase, .stopWords Filter.englishStopWords, .stem]⟩

/-- The whole text in lower case. -/
def keyword : Analyzer := ⟨.whole, [.lowercase]⟩

end Analyzer

end Analysis

/-- Analyzers by name. -/
abbrev Analyzers := Table String Analysis.Analyzer

namespace Analyzers

/-- The name of the analyzer that text has by default. -/
def standardName : String := "standard"

/-- The analyzers that are always there. -/
def builtIn : Analyzers :=
  Table.ofEntries [(standardName, .standard), ("english", .english), ("keyword", .keyword)]

end Analyzers

end DocIndex
