import CxxSymbols.Proofs.Source.Itanium
import CxxSymbols.Proofs.Source.Microsoft
/-!
One entity has one root under both schemes, however each of them spells it. The exception is a
list of parameters that is one `void`: where the `void` is qualified both schemes can spell the
list, but only one of them keeps it.
-/
namespace CxxSymbols.Source
open Canonical (Qualifiers)
open Itanium (Node)
open Microsoft (Symbol)

/- No entity is without a tree under either scheme, so what is said of its trees is not empty. -/
theorem encodedUnderBoth (e : Entity) : (∃ x : Node, x.Encodes e) ∧ ∃ y : Symbol, y.Encodes e :=
  ⟨⟨_, Node.ofEntityEncodes e⟩, ⟨_, Symbol.ofEntityEncodes e⟩⟩

/- Whatever trees encode an entity, they have one root, and so one key and one kind. -/
theorem adaptersAgree {e : Entity} {x : Node} {y : Symbol} (clear : e.noLone Ty.isVoid = true)
    (itanium : x.Encodes e) (microsoft : y.Encodes e) : x.toRoot = y.toRoot := by
  rw [itanium.canonical, microsoft.canonical clear]

def int : Ty := .object {} (.builtin .int)

def allocatorOfInt : Path := ⟨[std], ⟨"allocator", some [int]⟩⟩

def vectorOfInt : Path := ⟨[std], ⟨"vector", some [int, .object {} (.named allocatorOfInt)]⟩⟩

def fromVector : Function where
  name := .structor ⟨[⟨"ns", none⟩], ⟨"Foo", none⟩⟩ false
  args := none
  params := [.object {} (.indirect .reference (.object { isConst := true } (.named vectorOfInt)))]
  ret := none
  quals := {}
  refQual := .none

def fooNode : Node := .nested (.name "ns") (.name "Foo")

def allocatorNode : Node := .template (.abbreviation .allocator) [.name "int"]

def vectorNode : Node := .template (.std (.name "vector")) [.name "int", allocatorNode]

/- It is mangled as `_ZN2ns3FooC1ERKSt6vectorIiSaIiEE`. -/
def fromVectorNode : Node :=
  .function none (.nested fooNode (.structor fooNode false none))
    [.reference (.qualified vectorNode { isConst := true }) false] {} .none

def stdName : Microsoft.Name := .plain (Text.encode "std")

def intSymbol : Microsoft.Ty := .primitive .int {}

def allocatorSymbol : Microsoft.Ty :=
  .tagged .class ⟨.template (.plain (Text.encode "allocator")) [intSymbol], [stdName]⟩ {}

def vectorName : Microsoft.Name :=
  .template (.plain (Text.encode "vector")) [intSymbol, allocatorSymbol]

/- It is mangled as `??0Foo@ns@@QEAA@AEBV?$vector@HV?$allocator@H@std@@@std@@@Z`. -/
def fromVectorSymbol : Symbol :=
  ⟨⟨.intrinsic .ctor, [.plain (Text.encode "Foo"), .plain (Text.encode "ns")]⟩,
    .memberFunction { access := .public } .cdecl
      [.indirect .reference
        (.tagged .class ⟨vectorName, [stdName]⟩ { isConst := true, isPtr64 := true }) {}]
      { isPtr64 := true } .absent⟩

theorem fromVectorNodeEncodes : fromVectorNode.Encodes (.function fromVector) := by
  have int : (Node.name "int").Denotes int := .plain (.builtin .int)
  have allocator : allocatorNode.Names allocatorOfInt.components :=
    .template (.abbreviation .allocator) (.cons int .nil)
  have vector : vectorNode.Names vectorOfInt.components :=
    .template (.std (.name "vector")) (.cons int (.cons (.plain (.named (.same _) allocator)) .nil))
  have names : (Node.nested fooNode (.structor fooNode false none)).NamesFunction fromVector :=
    .structor rfl rfl (.same _) (.nested (.name "ns") (.name "Foo"))
  exact .function names
    (.cons (.plain (.lvalue (.qualified (.named (.same _) vector)))) .nil) .absent

theorem fromVectorSymbolEncodes : fromVectorSymbol.Encodes (.function fromVector) := by
  have int : intSymbol.Denotes int := .object (.builtin .int {})
  have inStd : Microsoft.Name.Scopes [stdName] [std] := .inner (.plain "std") .nil
  have allocator : allocatorSymbol.HasShape {} (.named allocatorOfInt) :=
    .named .class {} (.template "allocator" (.cons int .nil)) inStd
  have vector : vectorName.Names vectorOfInt.name :=
    .template "vector" (.cons int (.cons (.object allocator) .nil))
  have names : (Microsoft.Name.intrinsic .ctor).NamesFunction fromVector := .structor false rfl rfl
  have scope : Microsoft.Name.Scopes [.plain (Text.encode "Foo"), .plain (Text.encode "ns")]
      fromVector.name.scope := .inner (.plain "Foo") (.inner (.plain "ns") .nil)
  exact .memberFunction _ _ names scope
    (.listed
      (.cons (.object (.indirect .reference _ (.object (.named .class _ vector inStd)))) .nil))
    .absent rfl rfl

theorem vectorConstructorAgrees :
    (Entity.function fromVector).noLone Ty.isVoid = true ∧
      fromVectorNode.Encodes (.function fromVector) ∧
      fromVectorSymbol.Encodes (.function fromVector) ∧
      fromVectorNode.toRoot = fromVectorSymbol.toRoot :=
  ⟨rfl, fromVectorNodeEncodes, fromVectorSymbolEncodes,
    adaptersAgree rfl fromVectorNodeEncodes fromVectorSymbolEncodes⟩

example : (Entity.function fromVector).toRoot.key =
    "ns::Foo::$constructor(& const std::vector<int>) -> unknown" := by
  decide

/-! ### A list of one `void` -/

theorem loneVoidDiffers {f : Function} {quals : Qualifiers} {x : Node} {y : Symbol}
    (lone : f.params = [.object quals (.builtin .void)]) (itanium : x.Encodes (.function f))
    (microsoft : y.Encodes (.function f)) : x.toRoot ≠ y.toRoot := by
  obtain ⟨n, outer, us, r, -, -, params, -, root⟩ := microsoft.functionParts
  rw [lone] at params
  rw [itanium.canonical, root, params.loneVoid, Entity.toRoot, Function.signature, lone]
  simp [Ty.canonicals]

def fromConstVoid : Function where
  name := .structor ⟨[], ⟨"A", none⟩⟩ false
  args := none
  params := [.object { isConst := true } (.builtin .void)]
  ret := none
  quals := {}
  refQual := .none

/- It is mangled as `_ZN1AC1EKv`. -/
def constVoidNode : Node :=
  .function none (.nested (.name "A") (.structor (.name "A") false none))
    [.qualified (.name "void") { isConst := true }] {} .none

/- It is mangled as `??0A@@QEAA@$$CBX@Z`. -/
def constVoidSymbol : Symbol :=
  ⟨⟨.intrinsic .ctor, [.plain (Text.encode "A")]⟩,
    .memberFunction { access := .public } .cdecl [.primitive .void { isConst := true }]
      { isPtr64 := true } .absent⟩

theorem constVoidNodeEncodes : constVoidNode.Encodes (.function fromConstVoid) := by
  have names : (Node.nested (.name "A") (.structor (.name "A") false none)).NamesFunction
      fromConstVoid := .structor rfl rfl (.same _) (.name "A")
  exact .function names (.cons (.qualified (.builtin .void)) .nil) .absent

theorem constVoidSymbolEncodes : constVoidSymbol.Encodes (.function fromConstVoid) := by
  have names : (Microsoft.Name.intrinsic .ctor).NamesFunction fromConstVoid :=
    .structor false rfl rfl
  exact .memberFunction _ _ names (.inner (.plain "A") .nil)
    (.listed (.cons (.object (.builtin .void _)) .nil)) .absent rfl rfl

/- It is not enough that no list of parameters is one `void` without qualifiers. -/
theorem constVoidDiffers : ¬∀ (e : Entity) (x : Node) (y : Symbol),
    e.noLone Ty.isPlainVoid = true → x.Encodes e → y.Encodes e → x.toRoot = y.toRoot := by
  intro agree
  exact loneVoidDiffers rfl constVoidNodeEncodes constVoidSymbolEncodes
    (agree _ _ _ rfl constVoidNodeEncodes constVoidSymbolEncodes)

end CxxSymbols.Source
