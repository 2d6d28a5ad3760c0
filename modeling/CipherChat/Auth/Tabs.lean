import Mathlib.Data.List.Infix
import CipherChat.Auth.Lineage

/-!
`services/api.ts`: what the tabs of one browser do when a request is answered 401, over the
refresh endpoint of the server.  A tab shares the cookie jar and the local storage with the
others; the promise of a refresh under way is its own.
-/

namespace Tabs

open Async
open Rooms (Instant JavaError)
open Auth (RawToken AccessToken)

/-- A promise is named after the thread that has made it. -/
structure Browser where
  cookie : Option RawToken
  CC_Token : Option AccessToken
  CC_User : Bool
  pathname : Nat → String
  refreshPromise : Nat → Option Nat
  resolved : Nat → Option (Option AccessToken)

structure World where
  browser : Browser
  server : Auth.Server

/-- `refreshPromise` tells the refresh under way in a tab, and is one from then on; `post` sends
the cookie, `response` keeps the one that comes back. -/
inductive Op
  | server (op : Auth.Op)
  | refreshPromise (tab : Nat)
  | awaitPromise (promise : Nat)
  | post
  | response
  | setItem (token : AccessToken)
  | resolve (tab : Nat) (token : Option AccessToken)
  | removeToken
  | removeUser
  | pathname (tab : Nat)
  | navigate (tab : Nat) (path : String)
  | retry (token : AccessToken)
  | reject
  deriving DecidableEq

namespace Op

abbrev Val : Op → Type
  | server op => op.Val
  | refreshPromise _ => Option Nat
  | awaitPromise _ => Option AccessToken
  | post => Option RawToken
  | pathname _ => String
  | _ => Unit

abbrev Res (op : Op) : Type :=
  Except JavaError op.Val

end Op

def World.setBrowser (w : World) (browser : Browser) : World :=
  { w with browser }

/-- The effect of an operation; `none` while it has to wait. -/
def perform (t : Nat) (w : World) (op : Op) (a : Auth.Answer) : Option (op.Res × World) :=
  let b := w.browser
  match op with
  | .server op => (Auth.perform t w.server op a).map fun (result, server) => (result, { w with server })
  | .refreshPromise tab =>
      some (.ok (b.refreshPromise tab), w.setBrowser {
        b with refreshPromise := Function.update b.refreshPromise tab (b.refreshPromise tab <|> some t) })
  | .awaitPromise promise => (b.resolved promise).map fun token => (.ok token, w)
  | .post => some (.ok b.cookie, w)
  | .response => some (.ok (), w.setBrowser { b with cookie := (w.server.cookies t).getD b.cookie })
  | .setItem token => some (.ok (), w.setBrowser { b with CC_Token := some token })
  | .resolve tab token =>
      some (.ok (), w.setBrowser {
        b with
        refreshPromise := Function.update b.refreshPromise tab none
        resolved := Function.update b.resolved t (some token) })
  | .removeToken => some (.ok (), w.setBrowser { b with CC_Token := none })
  | .removeUser => some (.ok (), w.setBrowser { b with CC_User := false })
  | .pathname tab => some (.ok (b.pathname tab), w)
  | .navigate tab path =>
      some (.ok (), w.setBrowser { b with pathname := Function.update b.pathname tab path })
  | .retry _ | .reject => some (.ok (), w)

def Exec (t : Nat) (w : World) (op : Op) (result : op.Res) (w' : World) : Prop :=
  ∃ a, perform t w op a = some (result, w')

abbrev Prog (α : Type) := Throwing JavaError Op Op.Res α

def call (op : Op) : Prog op.Val :=
  ExceptT.mk (Program.call op)

/-- What the server does for a request. -/
def served {α : Type} (p : Auth.Prog α) : Prog α :=
  ExceptT.mk (p.run.relabel .server fun _ answer => answer)

/-- `.then`, `.catch(() => null)` -/
def keepToken : Except JavaError AccessToken → Prog (Option AccessToken)
  | .ok token => do
      call (.setItem token)
      return some token
  | .error _ => return none

def refreshAccessToken (tab : Nat) : Prog (Option AccessToken) := do
  match ← call (.refreshPromise tab) with
  | some promise => call (.awaitPromise promise)
  | none =>
      let cookie ← call .post
      let answer ← settle (served (Auth.refresh cookie))
      call .response
      let token ← keepToken answer
      call (.resolve tab token)
      return token

def redirect (tab : Nat) (pathname : String) : Prog Unit :=
  if pathname ≠ "/login" ∧ pathname ≠ "/" then call (.navigate tab "/login")
  else return ()

def clearSessionAndRedirect (tab : Nat) : Prog Unit := do
  call .removeToken
  call .removeUser
  let pathname ← call (.pathname tab)
  redirect tab pathname

/-- A request of a tab that was answered 401. -/
structure Unauthorized where
  tab : Nat
  url : List Char
  retried : Bool

/-- Never try to refresh the refresh call itself or login/register. -/
def Unauthorized.refreshes (original : Unauthorized) : Bool :=
  !decide ("/api/v1/auth/refresh".toList <:+: original.url) &&
    !decide ("/api/v1/auth/login".toList <:+: original.url) &&
    !decide ("/api/v1/auth/register".toList <:+: original.url)

def newToken (original : Unauthorized) : Prog (Option AccessToken) :=
  if original.refreshes then refreshAccessToken original.tab else return none

/-- The rejected branch of the response interceptor. -/
def onRejected (original : Unauthorized) : Prog Unit := do
  if original.retried then
    call .reject
  else
    match ← newToken original with
    | some token => call (.retry token)
    | none =>
        clearSessionAndRedirect original.tab
        call .reject

def service : Service Op Op.Res World Unauthorized (Except JavaError Unit) where
  program original := (onRejected original).run
  exec := Exec

abbrev Event := Entry Op Op.Res World Unauthorized

abbrev History := Journal Op Op.Res World Unauthorized

end Tabs
