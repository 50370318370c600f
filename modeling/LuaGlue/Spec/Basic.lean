import LuaGlue.Document.Value
import LuaGlue.TypeExpr.Basic

/-!
# Specifications

A `Spec` describes a native interface in canonical form: every type is a tree, every method a list of
overloads, every enumeration a list of named values. Tables keep the order of their document. Names
and native names are whatever values the document gives.
-/

namespace LuaGlue

namespace Spec

open Document (Value Entries)

/-- A table of a specification, in document order. -/
abbrev Table (α : Type) := List (Value × α)

/-- How many arguments a template takes. -/
inductive Arity where
  | exact (n : Nat)
  | any
  deriving DecidableEq, Repr

structure EnumDecl where
  native : Value
  /-- The names and their values. -/
  values : Entries

structure FieldDecl where
  type : TypeExpr
  native : Value
  /-- The text of the value that the field has when it is not given. -/
  default : Option String

structure RecordDecl where
  native : Value
  fields : Table FieldDecl

/-- One overload of a method. -/
structure MethodDecl where
  sig : Signature TypeExpr
  /-- The native name; null when it is the name of the method. -/
  native : Value := .null
  /-- What tells the overload from others of its name; null when nothing does. -/
  suffix : Value := .null

/-- What a class and an interface both declare. -/
structure Surface where
  native : Value
  /-- The name of the base, if the value is truthy. -/
  base : Value
  /-- The name of the shared handle, if the value is truthy. -/
  handle : Value
  methods : Table (List MethodDecl)
  statics : Table (List MethodDecl)

structure ClassDecl extends Surface where
  isAbstract : Bool := false
  needsDeref : Bool := false
  iterable : Option TypeExpr := none
  constructors : Table (Signature TypeExpr) := []
  properties : Table TypeExpr := []

/-- One alternative of the type `Mixed`. -/
structure MixedDecl where
  type : TypeExpr
  getter : String

structure MixedInfo where
  types : Table MixedDecl := []
  unused : List Value := []
  extra : List TypeExpr := []

end Spec

/-- A specification in canonical form. -/
structure Spec where
  headers : List Document.Value := []
  primitives : List Document.Value := []
  templates : Spec.Table Spec.Arity := []
  aliases : Spec.Table TypeExpr := []
  enums : Spec.Table Spec.EnumDecl := []
  opaqueTypes : List Document.Value := []
  keyTypes : Spec.Table TypeExpr := []
  records : Spec.Table Spec.RecordDecl := []
  classes : Spec.Table Spec.ClassDecl := []
  interfaces : Spec.Table Spec.Surface := []
  mixed : Spec.MixedInfo := {}

end LuaGlue
