/-
Request targets.

A target is a path with an optional query, perhaps in absolute form with
a scheme and an authority in front, or an authority alone, or a star. The
fragment is dropped. An absolute target without a path means the root.
-/

namespace Turnstile.Http

/-- A request target. -/
structure Uri where
  scheme? : Option String
  authority? : Option String
  path : String
  query? : Option String
deriving DecidableEq

namespace Uri

/-- The text up to a fragment. -/
def withoutFragment (cs : List Char) : List Char :=
  cs.takeWhile (· != '#')

/-- Path and query of a text; an empty path means `root`. -/
def pathAndQuery (root : String) (cs : List Char) : String × Option String :=
  let path := cs.takeWhile (· != '?')
  let query? := match cs.dropWhile (· != '?') with
    | [] => none
    | _ :: query => some (String.ofList query)
  (if path = [] then root else String.ofList path, query?)

/-- The texts before and after the mark of a scheme. -/
def splitScheme? : List Char → Option (List Char × List Char)
  | ':' :: '/' :: '/' :: rest => some ([], rest)
  | c :: rest => (splitScheme? rest).map fun (scheme, after) => (c :: scheme, after)
  | [] => none

/-- A scheme; the usual two are written in small letters. -/
def schemeOf (cs : List Char) : String :=
  let small := cs.map Char.toLower
  if small = ['h', 't', 't', 'p'] ∨ small = ['h', 't', 't', 'p', 's'] then
    String.ofList small
  else String.ofList cs

/-- Reads a target. -/
def ofText (text : String) : Uri :=
  let cs := withoutFragment text.toList
  match cs with
  | '/' :: _ =>
      let (path, query?) := pathAndQuery "/" cs
      ⟨none, none, path, query?⟩
  | ['*'] => ⟨none, none, "*", none⟩
  | _ =>
      match splitScheme? cs with
      | some (scheme, rest) =>
          let authority := rest.takeWhile fun c => c != '/' && c != '?'
          let (path, query?) := pathAndQuery "/" (rest.drop authority.length)
          ⟨some (schemeOf scheme), some (String.ofList authority), path, query?⟩
      | none => ⟨none, some (String.ofList cs), "", none⟩

/-- Writes a target. -/
def text (uri : Uri) : String :=
  let scheme := match uri.scheme? with
    | some scheme => scheme ++ "://"
    | none => ""
  let query := match uri.query? with
    | some query => "?" ++ query
    | none => ""
  scheme ++ uri.authority?.getD "" ++ uri.path ++ query

end Uri

end Turnstile.Http
