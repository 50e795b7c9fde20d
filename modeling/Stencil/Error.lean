import Stencil.Source.Excerpt
import Stencil.Text.Search
import Stencil.Token.Lexeme

/-!
# Errors

An error is a cause and, when the place is known, an excerpt of the template. The wording of every
message is here, together with the code and the advice that belong to a cause.
-/

namespace Stencil

/-- Why a template cannot be cut into tokens. -/
inductive TokenFault where
  /-- No closing delimiter follows. -/
  | unclosed (e : Enclosure)
  /-- Another enclosure opens before the closing delimiter. -/
  | interrupted (e other : Enclosure)
  /-- A marker that starts a file lacks its fields. -/
  | badMarker (content : String)
  /-- A marker ends a file where none was started. -/
  | strayEnd
  /-- The text ends inside a file. -/
  | openFile (file : String)
  deriving DecidableEq, Repr

namespace TokenFault

/-- The reason in words. -/
def describe : TokenFault → String
  | unclosed e =>
    "`" ++ .ofList e.opener ++ "` is never closed with `" ++ .ofList e.closer ++ "`"
  | interrupted e other =>
    "found `" ++ .ofList other.opener ++ "` before `" ++ .ofList e.closer ++ "` closed the `" ++
      .ofList e.opener ++ "`"
  | badMarker content => "invalid file marker `" ++ content ++ "`"
  | strayEnd => "file end marker without a matching begin marker"
  | openFile file => "file marker for `" ++ file ++ "` was never closed"

end TokenFault

/-- Why tags do not nest. -/
inductive NestingFault where
  /-- An end tag that is not the one expected next. -/
  | unexpected (expected found : String)
  /-- A block is still open where it has to be closed. -/
  | stillOpen (block : String)
  /-- A closing tag where no block is open. -/
  | nothingOpen (closer : String)
  /-- A closing tag for another kind of block. -/
  | closesOther (source block : String)
  /-- A closing tag for the other kind of condition. -/
  | closesCondition (source closer : String)
  /-- A branch outside of a condition. -/
  | outsideIf (source : String)
  /-- A branch behind the last one. -/
  | afterElse (source : String)
  /-- An arm outside of a case. -/
  | outsideCase (source : String)
  /-- Something to write between a case and its first arm. -/
  | contentBeforeWhen
  /-- A default arm that comes first. -/
  | beforeWhen (source : String)
  /-- A case without arms. -/
  | withoutWhen
  deriving DecidableEq, Repr

namespace NestingFault

/-- The reason in words. -/
def describe : NestingFault → String
  | unexpected expected found => "expected `" ++ expected ++ "` but found `" ++ found ++ "`"
  | stillOpen block => "`" ++ block ++ "` is not closed"
  | nothingOpen closer => "`" ++ closer ++ "` has no open block to close"
  | closesOther source block => "`" ++ source ++ "` closes a `" ++ block ++ "`"
  | closesCondition source closer => "`" ++ source ++ "` closes a `" ++ closer ++ "` block"
  | outsideIf source => "`" ++ source ++ "` outside of an open `if`"
  | afterElse source => "`" ++ source ++ "` after `else`"
  | outsideCase source => "`" ++ source ++ "` outside of an open `case`"
  | contentBeforeWhen => "content before the first `when`"
  | beforeWhen source => "`" ++ source ++ "` before the first `when`"
  | withoutWhen => "`case` without any `when`"

end NestingFault

/-- Why a data file gives no data. -/
inductive DataFault where
  /-- The file cannot be read. -/
  | unreadable (reason : String)
  /-- The text is not written in its format. -/
  | malformed (format : String)
  deriving DecidableEq, Repr

namespace DataFault

/-- The reason in words. -/
def describe : DataFault → String
  | unreadable reason => reason
  | malformed format => "malformed " ++ format

end DataFault

/-- What went wrong. -/
inductive Cause where
  /-- The template file cannot be read. -/
  | unreadable (reason : String)
  | malformedToken (fault : TokenFault)
  | tokenLimit (limit : Nat)
  | nesting (fault : NestingFault)
  | tagNotClosed (tag : String)
  | unknownTag (name : String)
  /-- The handler of a tag did not move past it. -/
  | tagNotConsumed (name : String)
  | invalidFor (reason : String)
  | invalidIdentifier (name : String)
  /-- The target of an inclusion cannot be read. -/
  | unresolved (kind target reason : String)
  /-- A file includes itself, through the files of the chain. -/
  | cyclicInclusion (chain : List String)
  | invalidUse (tag reason : String)
  | invalidOption (option reason : String)
  /-- An expression or a script cannot be compiled. -/
  | uncompilable (expression reason : String)
  | undefinedVariable (name : String)
  | notIterable (expression : String)
  | unknownFilter (name : String)
  | filterFailed (name reason : String)
  | evaluation (expression reason : String)
  | unknownMixin (name : String)
  | recursionLimit (limit : Nat)
  | invalidBindings (kind : String)
  /-- The configuration file cannot be read as one. -/
  | invalidConfig (reason : String)
  | dataFile (path : String) (fault : DataFault)
  | unsupportedFormat (format : String)
  /-- The blocks of a program call each other in a circle. -/
  | endlessBlocks
  deriving DecidableEq, Repr

namespace Cause

/-- The message without an excerpt. -/
def describe : Cause → String
  | unreadable reason => reason
  | malformedToken fault => "malformed token: " ++ fault.describe
  | tokenLimit limit => "token limit of " ++ toString limit ++ " exceeded while tokenizing"
  | nesting fault => "invalid nesting: " ++ fault.describe
  | tagNotClosed tag => "tag `" ++ tag ++ "` not closed"
  | unknownTag name => "tag \"" ++ name ++ "\" not found"
  | tagNotConsumed name => "tag \"" ++ name ++ "\" didn't change the engine state"
  | invalidFor reason => "invalid for loop: " ++ reason
  | invalidIdentifier name => "invalid identifier `" ++ name ++ "`"
  | unresolved kind target reason =>
    "failed to resolve " ++ kind ++ " `" ++ target ++ "`: " ++ reason
  | cyclicInclusion chain => "cyclic dependencies found: " ++ Text.join " -> " chain
  | invalidUse tag reason => "invalid use of `" ++ tag ++ "`: " ++ reason
  | invalidOption option reason => "invalid option `" ++ option ++ "`: " ++ reason
  | uncompilable expression reason =>
    "failed to compile template: `" ++ expression ++ "`: " ++ reason
  | undefinedVariable name => "`" ++ name ++ "` is not defined"
  | notIterable expression => "`" ++ expression ++ "` is not iterable"
  | unknownFilter name => "filter \"" ++ name ++ "\" is not available"
  | filterFailed name reason => "filter \"" ++ name ++ "\" failed: " ++ reason
  | evaluation expression reason => "failed to evaluate `" ++ expression ++ "`: " ++ reason
  | unknownMixin name => "mixin \"" ++ name ++ "\" is not defined"
  | recursionLimit limit => "mixin calls nested deeper than " ++ toString limit
  | invalidBindings kind => "bindings must be a map, received " ++ kind
  | invalidConfig reason => "failed to parse config file: " ++ reason
  | dataFile path fault => "failed to load data file `" ++ path ++ "`: " ++ fault.describe
  | unsupportedFormat format => "unsupported data file format: `" ++ format ++ "`"
  | endlessBlocks => "blocks call each other without end"

/-- The code by which a diagnostic refers to the cause. -/
def code : Cause → String
  | unreadable _ => "weft::io_error"
  | malformedToken _ => "weft::malformed_token"
  | tokenLimit _ => "weft::token_limit"
  | nesting _ => "weft::invalid_nesting"
  | tagNotClosed _ => "weft::tag_not_closed"
  | unknownTag _ => "weft::unknown_tag"
  | tagNotConsumed _ => "weft::engine_state_unchanged"
  | invalidFor _ => "weft::invalid_for_loop"
  | invalidIdentifier _ => "weft::invalid_identifier"
  | unresolved .. => "weft::failed_resolve"
  | cyclicInclusion _ => "weft::cyclic_dependency"
  | invalidUse .. => "weft::invalid_use"
  | invalidOption .. => "weft::invalid_option"
  | uncompilable .. => "weft::compile_eval"
  | undefinedVariable _ => "weft::undefined_variable"
  | notIterable _ => "weft::not_iterable"
  | unknownFilter _ => "weft::unknown_filter"
  | filterFailed .. => "weft::filter_failed"
  | evaluation .. => "weft::evaluation"
  | unknownMixin _ => "weft::unknown_mixin"
  | recursionLimit _ => "weft::recursion_limit"
  | invalidBindings _ => "weft::invalid_bindings"
  | invalidConfig _ => "weft::config_parse"
  | dataFile .. => "weft::data_file"
  | unsupportedFormat _ => "weft::unsupported_format"
  | endlessBlocks => "weft::endless_blocks"

/-- Advice on how to avoid the cause. -/
def help? : Cause → Option String
  | malformedToken _ =>
    some "every `\x7b\x7b`, `\x7b%` and `\x7b#` needs its matching `\x7d\x7d`, `%\x7d` or `#\x7d`"
  | tokenLimit _ => some "raise `token_limit` in the compile options or split the template"
  | nesting _ => some "close inner blocks before closing the block that contains them"
  | unknownTag _ => some "register a handler for this tag in `CompileOptions::tags`"
  | tagNotConsumed _ => some "a tag handler must consume at least its own token"
  | invalidFor _ =>
    some "use `\x7b% for item in items %\x7d` or `\x7b% for key, value in map %\x7d`"
  | cyclicInclusion _ => some "a file cannot include or extend itself, directly or indirectly"
  | invalidOption .. =>
    some "`source_file`, `base_dir` and `includes_dir` must be provided together"
  | undefinedVariable name =>
    some ("pass `" ++ name ++ "` in the bindings or assign it before use")
  | unknownFilter _ =>
    some "provide the filter through `CompileOptions::filters` or the runtime"
  | invalidConfig _ =>
    some "check that weft.toml is valid TOML with an optional [data] section"
  | unsupportedFormat _ => some "supported formats: text, json, toml, yaml, yml"
  | _ => none

/-- Whether the cause arises while a compiled template renders. -/
def arisesInRendering : Cause → Bool
  | undefinedVariable _ | notIterable _ | unknownFilter _ | filterFailed .. | evaluation ..
  | unknownMixin _ | recursionLimit _ | invalidBindings _ | endlessBlocks => true
  | _ => false

end Cause

/-- A cause and where it was met. -/
structure Error where
  cause : Cause
  /-- The excerpt of the template around the place. -/
  context : Option String := none
  deriving DecidableEq, Repr

namespace Error

/-- The message, with the excerpt below it. -/
def message (e : Error) : String :=
  e.cause.describe ++ match e.context with
    | some shown => "\n" ++ shown
    | none => ""

/-- The error at a position. -/
def atPos (cause : Cause) (files : Files) (pos : Pos) : Error :=
  ⟨cause, some (excerpt files excerptRadius pos)⟩

/-- The nesting error at a position, with a wide excerpt. -/
def nestingAt (fault : NestingFault) (files : Files) (pos : Pos) : Error :=
  ⟨.nesting fault, some (excerpt files nestingRadius pos)⟩

/-- The error at a position that may be unknown. -/
def near (cause : Cause) (files : Files) (pos : Option Pos) : Error :=
  ⟨cause, pos.map (excerpt files excerptRadius)⟩

end Error

end Stencil
