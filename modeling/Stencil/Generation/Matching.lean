import Stencil.Error
import Stencil.NameSet
import Stencil.Token.Basic

/-!
# Matching tags

A block tag `x` is closed by the tag `endx`, and blocks in between have to be closed in order. The
content of a verbatim block is not looked at: it ends at the first tag that closes it.

* `closingTag` finds the tag that closes a block, and tells what is wrong when there is none.
* `blockSites` finds the first and the last tag of every named block of a template.
-/

namespace Stencil

/-- Which tags open blocks. -/
structure TagKinds where
  /-- Tags that are closed by another tag. -/
  blocks : NameSet := .empty
  /-- Those of them whose content is taken as it is. -/
  verbatim : NameSet := .empty
  deriving Inhabited

namespace TagKinds

/-- Whether a tag opens a block. -/
def isBlock (k : TagKinds) (name : String) : Bool := decide (name ∈ k.blocks)

/-- Whether a tag opens a verbatim block. -/
def isVerbatim (k : TagKinds) (name : String) : Bool := decide (name ∈ k.verbatim)

/-- The kinds of both. -/
def merged (k extra : TagKinds) : TagKinds :=
  ⟨k.blocks.insertAll extra.blocks.toList, k.verbatim.insertAll extra.verbatim.toList⟩

end TagKinds

/-- The name of the tag that closes a block. -/
def closerOf (name : String) : String := "end" ++ name

/-- Whether a name is that of a closing tag. -/
def isCloser (name : String) : Bool := "end".toList.isPrefixOf name.toList

/-- Why there is no closing tag. -/
inductive MatchFault where
  /-- The tokens end inside a verbatim block. -/
  | verbatimOpen (opener : Tag)
  /-- A closing tag that does not close the innermost block. -/
  | mismatch (expected : String) (found : Tag)
  /-- The tokens end. -/
  | missing
  deriving DecidableEq, Repr

/-- The index of the tag `name` among tokens that start at an index. `inVerbatim` is the opener of a
verbatim block whose end has not come yet, `stack` the closing tags that have to come first. -/
def closingFrom (kinds : TagKinds) (name : String) :
    Option Tag → List String → Nat → List Token → Except MatchFault Nat
  | some opener, _, _, [] => .error (.verbatimOpen opener)
  | none, _, _, [] => .error .missing
  | some opener, stack, idx, token :: rest =>
    if token.isTag (closerOf opener.name) then closingFrom kinds name none stack (idx + 1) rest
    else closingFrom kinds name (some opener) stack (idx + 1) rest
  | none, stack, idx, .tag tag :: rest =>
    if tag.name = name && stack.isEmpty then .ok idx
    else if kinds.isVerbatim tag.name then closingFrom kinds name (some tag) stack (idx + 1) rest
    else if kinds.isBlock tag.name then
      closingFrom kinds name none (closerOf tag.name :: stack) (idx + 1) rest
    else if isCloser tag.name then
      match stack with
      | [] => .error (.mismatch name tag)
      | closer :: stack =>
        if closer = tag.name then closingFrom kinds name none stack (idx + 1) rest
        else .error (.mismatch closer tag)
    else closingFrom kinds name none stack (idx + 1) rest
  | none, stack, idx, _ :: rest => closingFrom kinds name none stack (idx + 1) rest

/-- The index of the tag `name` that closes the block opened at an index. -/
def closingTag (kinds : TagKinds) (tokens : List Token) (name : String) (idx : Nat) :
    Except MatchFault Nat :=
  closingFrom kinds name none [] (idx + 1) (tokens.drop (idx + 1))

/-- The index of the tag that ends the verbatim block opened at an index. -/
def verbatimEnd? (tokens : List Token) (opener : String) (idx : Nat) : Option Nat :=
  ((tokens.drop (idx + 1)).findIdx? (·.isTag (closerOf opener))).map (idx + 1 + ·)

/-- The name of a named block: the first word of its head. -/
def blockName? (tag : Tag) : Option String := (Text.wordsOf tag.head).head?

/-- The first and the last place of a name. -/
abbrev Sites := Table (Nat × Nat)

/-- Note a place of a name. -/
def Sites.note (sites : Sites) (name : String) (idx : Nat) : Sites :=
  match sites.get? name with
  | some (first, _) => Table.insert sites name (first, idx)
  | none => Table.insert sites name (idx, idx)

/-- The places of the named blocks among tokens that start at an index, verbatim blocks left out.
The failure is the opener of a verbatim block without an end. -/
def sitesFrom (kinds : TagKinds) : Option Tag → Nat → Sites → List Token → Except Tag Sites
  | some opener, _, _, [] => .error opener
  | none, _, sites, [] => .ok sites
  | some opener, idx, sites, token :: rest =>
    if token.isTag (closerOf opener.name) then sitesFrom kinds none (idx + 1) sites rest
    else sitesFrom kinds (some opener) (idx + 1) sites rest
  | none, idx, sites, .tag tag :: rest =>
    if kinds.isVerbatim tag.name then sitesFrom kinds (some tag) (idx + 1) sites rest
    else if tag.name = "block" then
      sitesFrom kinds none (idx + 1) (sites.note ((blockName? tag).getD "") idx) rest
    else sitesFrom kinds none (idx + 1) sites rest
  | none, idx, sites, _ :: rest => sitesFrom kinds none (idx + 1) sites rest

/-- The places of the named blocks. -/
def blockSites (kinds : TagKinds) (tokens : List Token) : Except Tag Sites :=
  sitesFrom kinds none 0 {} tokens

/-- A closing tag comes behind the tokens before it. -/
theorem le_of_closingFrom {kinds : TagKinds} {name : String} {inVerbatim : Option Tag}
    {stack : List String} {idx found : Nat} {tokens : List Token}
    (h : closingFrom kinds name inVerbatim stack idx tokens = .ok found) : idx ≤ found := by
  fun_induction closingFrom kinds name inVerbatim stack idx tokens <;> grind

/-- The closing tag of a block comes behind its opener. -/
theorem lt_of_closingTag {kinds : TagKinds} {tokens : List Token} {name : String} {idx found : Nat}
    (h : closingTag kinds tokens name idx = .ok found) : idx < found :=
  le_of_closingFrom h

end Stencil
