import UserManagedAccess.Error
import UserManagedAccess.Json.Basic

/-! Computations that ask other servers for documents. What was asked for is known afterwards, also
when the computation failed. -/
namespace UserManagedAccess

/-- Answers the address of a document with the document, or fails in any way. -/
abbrev Fetcher := String → Except Error Json

/-- Serves the given documents and no other. -/
def Fetcher.pinned (documents : KeyMap Json) : Fetcher := fun url =>
  match documents.get? url with
  | some document => .ok document
  | none => .error (.fetch (.noDocument url))

/-- A result, and the addresses that were asked for on the way to it, in order. -/
structure Fetched (α : Type) where
  requested : List String
  result : Except Error α

def Fetching (α : Type) := Fetcher → Fetched α

namespace Fetching
variable {α β : Type}

def ofExcept (result : Except Error α) : Fetching α := fun _ => ⟨[], result⟩

protected def bind (m : Fetching α) (f : α → Fetching β) : Fetching β := fun fetcher =>
  match m fetcher with
  | ⟨requested, .error e⟩ => ⟨requested, .error e⟩
  | ⟨requested, .ok a⟩ =>
    let next := f a fetcher
    ⟨requested ++ next.requested, next.result⟩

instance : Monad Fetching where
  pure a := ofExcept (.ok a)
  bind := Fetching.bind

instance : MonadLift (Except Error) Fetching := ⟨ofExcept⟩

def mapError (f : Error → Error) (m : Fetching α) : Fetching α := fun fetcher =>
  let fetched := m fetcher
  ⟨fetched.requested, fetched.result.mapError f⟩

/-- Asks for the document at an address. -/
def ask (url : String) : Fetching Json := fun fetcher =>
  ⟨[url], fetcher url⟩

end Fetching

end UserManagedAccess
