import StructuredLog.Assoc
import StructuredLog.Value

/-!
Fields of a log entry: a map from names to values that remembers the order of insertion.
Setting a name that is present replaces its value in place; a new name goes to the end. The view
of a field set is the list of its entries.
-/

namespace StructuredLog

structure Fields where
  toList : List (Text × Value)
  deriving DecidableEq, Repr

namespace Fields

def empty : Fields := ⟨[]⟩

instance : EmptyCollection Fields := ⟨empty⟩

instance : Inhabited Fields := ⟨empty⟩

def set (f : Fields) (key : Text) (val : Value) : Fields := ⟨Assoc.set key val f.toList⟩

def setAll (f : Fields) (entries : List (Text × Value)) : Fields :=
  entries.foldl (fun acc e => acc.set e.1 e.2) f

def ofList (entries : List (Text × Value)) : Fields := empty.setAll entries

def merge (f g : Fields) : Fields := f.setAll g.toList

def find? (f : Fields) (key : Text) : Option Value := Assoc.get? key f.toList

def contains (f : Fields) (key : Text) : Bool := (f.find? key).isSome

def keys (f : Fields) : List Text := Assoc.keys f.toList

def size (f : Fields) : Nat := f.toList.length

def isEmpty (f : Fields) : Bool := f.toList.isEmpty

def eraseIf (f : Fields) (p : Text → Bool) : Fields := ⟨f.toList.filter fun e => !p e.1⟩

def countErased (f : Fields) (p : Text → Bool) : Nat := f.toList.countP fun e => p e.1

def erase (f : Fields) (key : Text) : Fields := f.eraseIf (· == key)

def same (f g : Fields) : Bool :=
  f.size == g.size
    && (f.toList.zip g.toList).all fun (a, b) => a.1 == b.1 && a.2.same b.2

@[simp] theorem find?_set_self (f : Fields) (key : Text) (val : Value) :
    (f.set key val).find? key = some val := Assoc.get?_set_self key val f.toList

theorem find?_set_of_ne {key other : Text} (h : other ≠ key) (f : Fields) (val : Value) :
    (f.set key val).find? other = f.find? other := Assoc.get?_set_of_ne h val f.toList

theorem contains_iff {f : Fields} {key : Text} : f.contains key = true ↔ key ∈ f.keys :=
  Assoc.get?_isSome_iff

theorem nodup_keys_set {f : Fields} (h : f.keys.Nodup) (key : Text) (val : Value) :
    (f.set key val).keys.Nodup := Assoc.nodup_keys_set h val

theorem keys_eraseIf (f : Fields) (p : Text → Bool) :
    (f.eraseIf p).keys = f.keys.filter fun k => !p k := by
  simp only [keys, Assoc.keys, eraseIf, List.filter_map]
  rfl

end Fields

end StructuredLog
