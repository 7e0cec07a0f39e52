import Mathlib.Data.List.Dedup
import Mathlib.Data.List.Count

/-!
# Redirects of an HTTP client

What the standard library's client does with a reply that names another place: it asks there,
with a GET and without a body, or hands the reply to its caller. How a place is read and joined
to the one that was asked is a parameter.
-/

namespace GenericMlCache.HttpRedirects

/-- The method of a request, as far as redirects tell them apart. -/
inductive Verb where
  | get
  | head
  | post
  | other

/-- A request: its method and where it goes. -/
structure Asked (υ : Type) where
  /-- The method. -/
  verb : Verb
  /-- The full URL. -/
  url : υ

/-- What comes of reading the place that a reply names. -/
inductive Target (υ ε : Type) where
  /-- A URL of a scheme that may be followed. -/
  | place (url : υ)
  /-- A URL of another scheme. -/
  | forbidden
  /-- No URL at all. -/
  | invalid (error : ε)

/-- What the client does with a reply. -/
inductive Redirection (υ ε : Type) where
  /-- The reply is the caller's. -/
  | kept
  /-- The reply is read to its end and another request sent. -/
  | followed (url : υ)
  | invalid (error : ε)

/-- A status that has a handler of redirects. -/
def isRedirect (code : ℕ) : Bool := code=301 || code=302 || code=303 || code=307 || code=308

/-- Whether a request of a method is sent on: one that may carry a body only where it is sent on
without it. -/
def isSentOn (code : ℕ) : Verb → Bool
  | .get | .head => isRedirect code
  | .post => code=301 || code=302 || code=303
  | .other => false

/-- How often one URL is asked. -/
def maxRepeats : ℕ := 4

/-- How many URLs are asked. -/
def maxRedirections : ℕ := 10

section Redirects
variable {υ ε η : Type} [DecidableEq υ] (target : υ → η → Target υ ε)

/-- What the client does with a reply, when it was sent on to these URLs before, latest first;
`location` is the header that names the place. -/
def redirection (asked : Asked υ) (visited : List υ) (code : ℕ) (location : Option η) : Redirection υ ε :=
  match location with
  | none => .kept
  | some named =>
    if isRedirect code=true then
      match target asked.url named with
      | .invalid error => .invalid error
      | .forbidden => .kept
      | .place url =>
        if isSentOn code asked.verb=false ∨ maxRepeats ≤ visited.count url ∨ maxRedirections ≤ visited.dedup.length
        then .kept else .followed url
    else .kept

variable {target} {asked : Asked υ} {visited : List υ} {code : ℕ} {location : Option η}

/-- A reply of a status that is no redirect is the caller's. -/
theorem redirection_other (h : isRedirect code=false) : redirection target asked visited code location=.kept := by
  cases location with
  | none => rfl
  | some named =>
    unfold redirection
    rw [h]
    rfl

/-- Where the client does anything else, the status is one of a redirect. -/
theorem isRedirect_of_ne_kept (h : redirection target asked visited code location≠.kept) : isRedirect code=true := by
  cases hcode : isRedirect code with
  | true => rfl
  | false => exact absurd (redirection_other hcode) h

end Redirects

end GenericMlCache.HttpRedirects
