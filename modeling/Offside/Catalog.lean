import Offside.Program.Basic

/-! Where a run looks up what a program declares: its classes and its interfaces.

Classes keep all that was declared of them, and the console's is added to them. Of several classes with
one name the first is kept, so a name stands for at most one class. -/
namespace Offside

/-- What calling a method does. -/
inductive Action where
  /-- Runs statements over the parameters, these locals and the returns. -/
  | run (locals : List Decl) (body : List Stmt)
  /-- Writes its arguments, however many, to the console. -/
  | write

structure Method where
  header : Header
  isPrivate : Bool
  isShared : Bool
  action : Action
  span : Span

structure Class where
  name : String
  interfaces : List String
  members : List Member
  constructors : List ConstructorDecl
  methods : List Method
  span : Span

/-- The span of what no source declares. -/
def Span.unwritten : Span := .single ⟨0, 0, ""⟩

def Method.ofDecl (m : MethodDecl) : Method :=
  ⟨m.header, m.isPrivate, m.isShared, .run m.locals m.body, m.span⟩

namespace Class

/-- A class with nothing but a name. -/
def bare (name : String) : Class := ⟨name, [], [], [], [], .unwritten⟩

def ofDecl (c : ClassDecl) : Class where
  name := c.name
  interfaces := c.interfaces
  members := c.members
  constructors := c.constructors
  methods := c.methods.map Method.ofDecl
  span := c.span

/-- The class through which every program writes. -/
def console : Class :=
  { bare "console" with methods := [⟨⟨"write", [], []⟩, false, true, .write, .unwritten⟩] }

/-- The variables of its objects. -/
def fields (c : Class) : List Decl := c.members.map Member.decl

def implements (c : Class) (interface : String) : Bool := interface ∈ c.interfaces

/-- The method that an iterator is asked for its next item: no parameters, two returns. -/
def getNext? (c : Class) : Option Method :=
  c.methods.find? fun m =>
    m.header.name = "getNext" ∧ m.header.parameters.isEmpty ∧ m.header.returns.length = 2

end Class

/-- A program can start here: shared, not private, without parameters and named `start`. -/
def Method.isEntry (m : Method) : Bool :=
  m.isShared && !m.isPrivate && m.header.name == "start" && m.header.parameters.isEmpty

structure Catalog where
  interfaces : List InterfaceDecl
  /-- In order of declaration, no name twice. -/
  classes : List Class

namespace Catalog

def class? (c : Catalog) (name : String) : Option Class := c.classes.find? (·.name = name)

/-- The first interface of a name. -/
def interface? (c : Catalog) (name : String) : Option InterfaceDecl :=
  c.interfaces.find? (·.name = name)

/-- The first class with an entry method, and that method. -/
def entry? (c : Catalog) : Option (Class × Method) :=
  c.classes.findSome? fun cls => (cls.methods.find? Method.isEntry).map (cls, ·)

/-- Drops every class whose name is among `taken` or on an earlier class; the names that were
dropped, in order, come second. -/
def keepFirst (taken : List String) : List Class → List Class × List String
  | [] => ([], [])
  | cls :: rest =>
    if cls.name ∈ taken then
      let (kept, dropped) := keepFirst taken rest
      (kept, cls.name :: dropped)
    else
      let (kept, dropped) := keepFirst (cls.name :: taken) rest
      (cls :: kept, dropped)

/-- Every class of a program, the console last. -/
def declared (p : Program) : List Class := p.classes.map Class.ofDecl ++ [Class.console]

def ofProgram (p : Program) : Catalog := ⟨p.interfaces, (keepFirst [] (declared p)).1⟩

/-- The names of the classes that a program declares once too often. -/
def repeated (p : Program) : List String := (keepFirst [] (declared p)).2

end Catalog

end Offside
