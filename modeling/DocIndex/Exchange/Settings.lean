/-
JSON forms of settings: analyzers, strategies and the configuration of an index.
-/
import DocIndex.Document.Builder
import DocIndex.Exchange.Index
import DocIndex.Query.Plan

namespace DocIndex

namespace Analysis

/-- Decodes a filter: its name, or the list of words that are dropped. -/
def Filter.ofJson : Json → Decoded Filter
  | .text "lowercase" => .ok .lowercase
  | .text "stop_words" => .ok (.stopWords englishStopWords)
  | .text "stemmer" => .ok .stem
  | words => words.asTexts.map .stopWords

/-- Decodes an analyzer. -/
def Analyzer.ofJson (j : Json) : Decoded Analyzer := do
  let whole := (← j.textOr "tokenizer" "standard") == "keyword"
  let maxLength ← j.natOr "max_token_length" defaultMaxLength
  let filters ← (← j.itemsAt "filters").mapM Filter.ofJson
  return ⟨if whole then .whole else .words maxLength, filters⟩

def Token.toJson (token : Token) : Json :=
  .array [.text token.text, .ofNat token.position, .ofNat token.offset,
    .text (match token.kind with | .word => "Word" | .number => "Number")]

end Analysis

/-- The strategy of a name; the analyzer is for text. -/
def Strategy.ofName (name analyzer : String) : Decoded Strategy :=
  let all : List Strategy := [.identity, .text analyzer, .array, .int64, .double, .boolean, .null,
    .undefined, .dateTime, .timeSpan]
  match all.find? fun strategy => strategy.name == name with
  | some strategy => .ok strategy
  | none => .error "strategy"

/-- Sets the strategies of a list of content types, paths and names in order. -/
def FieldConfiguration.setAll (fields : FieldConfiguration) (entries : List Json) :
    Decoded FieldConfiguration :=
  entries.foldlM (fun fields entry => do
    match ← entry.asTexts with
    | [contentType, path, name] =>
      return fields.set ⟨contentType, path⟩ (← Strategy.ofName name Analyzers.standardName)
    | [contentType, path, name, analyzer] =>
      return fields.set ⟨contentType, path⟩ (← Strategy.ofName name analyzer)
    | _ => .error "content type, path and strategy") fields

def Compression.ofName (name : String) : Decoded Compression :=
  match Compression.all.find? fun c => c.name == name with
  | some compression => .ok compression
  | _ => .error "compression"

def Query.Connective.ofName (name : String) : Query.Connective :=
  if name == "And" then .and else .or

/-- Decodes the conventions of queries, where everything has a default. -/
def Query.Conventions.ofJson (j : Json) : Decoded Query.Conventions := do
  let field ← j.textOr "content_type_field" Config.default.contentTypeField
  return ⟨.ofName (← j.textOr "operator" "Or"), field⟩

/-- Decodes what queries are planned with, where the instant has to be given. -/
def Query.PlanContext.ofJson (j : Json) : Decoded Query.PlanContext := do
  return {
    catalog := ← j.memberOr "infos" [] FieldCatalog.ofLists
    analyzers := Analyzers.builtIn
    now := ← Moment.ofJson (← j.need "now")
    phraseSlop := ← j.natOr "slop" Config.default.phraseSlop
    maxEdits := ← j.natOr "edits" Config.default.fuzzyMaxEdits }

/-- Decodes a configuration, where everything has a default. -/
def Config.ofJson (j : Json) : Decoded Config := do
  let d := Config.default
  return {
    defaultConnective := .ofName (← j.textOr "default_operator" "Or")
    phraseSlop := ← j.natOr "phrase_slop" d.phraseSlop
    fuzzyMaxEdits := ← j.natOr "fuzzy_max_edits" d.fuzzyMaxEdits
    queryCacheSize := ← j.natOr "query_cache_size" d.queryCacheSize
    batchSize := ← j.natOr "batch_size" d.batchSize
    capacityCeiling := ← j.natOr "capacity_ceiling" d.capacityCeiling
    identityField := ← j.textOr "identity_field" d.identityField
    contentTypeField := ← j.textOr "content_type_field" d.contentTypeField
    defaultContentType := ← j.textOr "default_content_type" d.defaultContentType
    sourceField := ← j.textOr "source_field" d.sourceField
    sourceCompression :=
      ← Compression.ofName (← j.textOr "source_compression" d.sourceCompression.name) }

/-- Decodes what documents are built with: a configuration, and strategies set on it. -/
def DocumentBuilder.ofJson (analyzers : Analyzers) (j : Json) : Decoded DocumentBuilder := do
  let config ← j.memberOr "config" Config.default Config.ofJson
  let fields ← (FieldConfiguration.ofConfig config).setAll (← j.itemsAt "overrides")
  return { config, fields, analyzers }

def Config.toJson (c : Config) : Json :=
  .ofMembers [
    ("default_operator", .text (if c.defaultConnective = .and then "And" else "Or")),
    ("phrase_slop", .ofNat c.phraseSlop), ("fuzzy_max_edits", .ofNat c.fuzzyMaxEdits),
    ("query_cache_size", .ofNat c.queryCacheSize), ("batch_size", .ofNat c.batchSize),
    ("capacity_ceiling", .ofNat c.capacityCeiling), ("identity_field", .text c.identityField),
    ("content_type_field", .text c.contentTypeField),
    ("default_content_type", .text c.defaultContentType), ("source_field", .text c.sourceField),
    ("source_compression", .text c.sourceCompression.name)]

end DocIndex
