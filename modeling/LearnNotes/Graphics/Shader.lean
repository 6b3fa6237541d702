import LearnNotes.Lib.Ledger
import LearnNotes.Lib.Machine
import LearnNotes.Lib.Objects
import LearnNotes.Graphics.Texture
import LearnNotes.Utils.Lang

/-!
# `Shader`

`shader.hpp` and `shader.cpp`. A `Shader` is the name of a GL program. `build` opens the two
sources, compiles a shader object from each and links them into a new program; the streams,
the heap buffers and the GL objects it makes and disposes of stand in the ledgers of
`ShaderSys`. What the file system, the compiler and the linker answer is the input of the
call. `shaders` serves any sequence of constructions, builds, moves and destructions.
-/

namespace LearnNotes.Graphics

open Lib

/-- The `graphics::errc` values of the shader functions. -/
inductive ShaderErr where
  | invalid_argument
  | shader_compile_failed
  | shader_link_failed
  | shader_source_load_failed
  deriving DecidableEq, Repr

def ShaderErr.code : ShaderErr → UInt16
  | .invalid_argument => 0x0016
  | .shader_compile_failed => 0x0201
  | .shader_link_failed => 0x0202
  | .shader_source_load_failed => 0x0205

/-- `make_error_code(errc)`. -/
def ShaderErr.error (e : ShaderErr) : error_code := make_error_code e.code

/-! ## What `build` makes and disposes of -/

structure ShaderSys where
  programs : Ledger GLuint
  /-- Shader objects, by `glCreateShader` and `glDeleteShader`. -/
  shaders : Ledger GLuint
  /-- Streams, by `fopen` and `fclose`. -/
  files : Ledger Nat
  /-- Heap buffers, by `malloc` and `free`. -/
  buffers : Ledger Nat

namespace ShaderSys

/-- A null answer, or one that is in use and so cannot be given, opens nothing. -/
def fopen (p : Option Nat) (s : ShaderSys) : Option Nat × ShaderSys :=
  match p with
  | none => (none, s)
  | some p =>
    if p ∈ s.files.live then (none, s) else (some p, { s with files := .create p :: s.files })

def fclose (p : Nat) (s : ShaderSys) : ShaderSys := { s with files := .delete p :: s.files }

/-- `glCreateShader`: 0, or a name that is not in use. -/
def glCreateShader (n : GLuint) (s : ShaderSys) : GLuint × ShaderSys :=
  if n = 0 ∨ n ∈ s.shaders.live then (0, s) else (n, { s with shaders := .create n :: s.shaders })

/-- GL ignores name 0. -/
def glDeleteShader (n : GLuint) (s : ShaderSys) : ShaderSys :=
  if n = 0 then s else { s with shaders := .delete n :: s.shaders }

def glCreateProgram (n : GLuint) (s : ShaderSys) : GLuint × ShaderSys :=
  if n = 0 ∨ n ∈ s.programs.live then (0, s)
  else (n, { s with programs := .create n :: s.programs })

def glDeleteProgram (n : GLuint) (s : ShaderSys) : ShaderSys :=
  if n = 0 then s else { s with programs := .delete n :: s.programs }

end ShaderSys

/-! ## `build` -/

/-- How `ReadFileToBuffer` ends: with an error, with `GL_FALSE` for an empty file, with the
source in the static buffer, or in a heap buffer at `p`. -/
inductive Read where
  | error (rc : SKLErr)
  | empty
  | static
  | heap (p : Nat)

def Read.rc : Read → SKLErr
  | .error rc => rc
  | _ => EXIT_SUCCESS

/-- The heap buffer `*out_src` points to; the static buffer and null are none. -/
def Read.src : Read → Option Nat
  | .heap p => some p
  | _ => none

/-- The answers one stage gets: the stream, the read, the name and the compile status. -/
structure Stage where
  file : Option Nat
  read : Read
  name : GLuint
  compiled : Bool

structure BuildEnv where
  vertex : Stage
  fragment : Stage
  program : GLuint
  linked : Bool

structure Shader where
  _ID : GLuint := 0
  deriving DecidableEq

namespace Shader

open ShaderSys

/-- `checkCompile`; the status of name 0 stays 0. -/
def checkCompile (name : GLuint) (success : Bool) (failed : ShaderErr) : SKLErr :=
  if name ≠ 0 ∧ success then EXIT_SUCCESS else failed.code.toNat

def freeSource (src : Option Nat) (s : ShaderSys) : ShaderSys :=
  match src with
  | none => s
  | some p => { s with buffers := .delete p :: s.buffers }

def ReadFileToBuffer (read : Read) (s : ShaderSys) : ShaderSys :=
  match read.src with
  | none => s
  | some p => { s with buffers := .create p :: s.buffers }

/-- `BuildShader` on an open stream: the code and the shader object. -/
def BuildShader (st : Stage) (s : ShaderSys) : SKLErr × GLuint × ShaderSys :=
  let s := ReadFileToBuffer st.read s
  if st.read.rc ≠ EXIT_SUCCESS then (ShaderErr.shader_source_load_failed.code.toNat, 0, s)
  else
    let (shader, s) := s.glCreateShader st.name
    let s := freeSource st.read.src s
    let ec := checkCompile shader st.compiled .shader_compile_failed
    if ec ≠ EXIT_SUCCESS then (ec, 0, s.glDeleteShader shader) else (EXIT_SUCCESS, shader, s)

/-- Both streams, or neither is left open. -/
def sources (env : BuildEnv) (s : ShaderSys) : Option (Nat × Nat) × ShaderSys :=
  let (vertexSrc, s) := s.fopen env.vertex.file
  let (fragmentSrc, s) := s.fopen env.fragment.file
  match vertexSrc, fragmentSrc with
  | some v, some f => (some (v, f), s)
  | some v, none => (none, s.fclose v)
  | none, some f => (none, s.fclose f)
  | none, none => (none, s)

/-- The two shader objects; the error is that of the first stage that fails. -/
def stages (env : BuildEnv) (s : ShaderSys) : error_code × GLuint × GLuint × ShaderSys :=
  let (rc, vertex, s) := BuildShader env.vertex s
  let ec := make_error_code (toErrc rc)
  if ec.isSet then (ec, vertex, 0, s)
  else
    let (rc, fragment, s) := BuildShader env.fragment s
    (make_error_code (toErrc rc), vertex, fragment, s)

/-- The program: what `_ID` becomes. -/
def link (env : BuildEnv) (s : ShaderSys) : error_code × GLuint × ShaderSys :=
  let (ID, s) := s.glCreateProgram env.program
  let ec := make_error_code (toErrc (checkCompile ID env.linked .shader_link_failed))
  if ec.isSet then (ec, 0, s.glDeleteProgram ID) else (ec, ID, s)

/-- `build(ec, const char *, const char *)`. -/
def build (env : BuildEnv) (t : Shader) (s : ShaderSys) : error_code × Shader × ShaderSys :=
  match sources env s with
  | (none, s) => (ShaderErr.shader_source_load_failed.error, t, s)
  | (some (v, f), s) =>
    let (ec, vertex, fragment, s) := stages env s
    if ec.isSet then (ec, t, (s.fclose f).fclose v)
    else
      let (ec, ID, s) := link env s
      let s := (s.glDeleteShader vertex).glDeleteShader fragment
      (ec, { _ID := ID }, (s.fclose f).fclose v)

/-- What `std::filesystem` says of a path. -/
structure PathStatus where
  isEmpty : Bool
  present : Bool
  presentEc : error_code
  regular : Bool
  regularEc : error_code

/-- `build(ec, const path &, const path &)`. -/
def buildPath (vertexPath fragmentPath : PathStatus) (env : BuildEnv) (t : Shader)
    (s : ShaderSys) : error_code × Shader × ShaderSys :=
  if vertexPath.isEmpty || fragmentPath.isEmpty then (ShaderErr.invalid_argument.error, t, s)
  else if vertexPath.presentEc.isSet then (vertexPath.presentEc, t, s)
  else if !vertexPath.regular then (vertexPath.regularEc, t, s)
  else if fragmentPath.presentEc.isSet then (fragmentPath.presentEc, t, s)
  else if !fragmentPath.regular then (fragmentPath.regularEc, t, s)
  else if !(vertexPath.present && fragmentPath.present) then
    (ShaderErr.shader_source_load_failed.error, t, s)
  else t.build env s

/-- `~Shader`. -/
def destroy (t : Shader) (s : ShaderSys) : ShaderSys :=
  if t._ID ≠ 0 then s.glDeleteProgram t._ID else s

end Shader

/-! ## Many shaders -/

structure ShaderWorld where
  objs : Objects Shader
  sys : ShaderSys

inductive ShaderOp where
  | construct
  | build (i : Nat) (env : BuildEnv)
  | buildPath (i : Nat) (vertexPath fragmentPath : Shader.PathStatus) (env : BuildEnv)
  | moveConstruct (src : Nat)
  | moveAssign (dst src : Nat)
  | destroy (i : Nat)

namespace ShaderWorld

def construct (w : ShaderWorld) : ShaderWorld := { w with objs := w.objs.push {} }

/-- A member function that may set an error code, called on object `i`. -/
def call (i : Nat) (f : Shader → ShaderSys → error_code × Shader × ShaderSys) (w : ShaderWorld) :
    Option error_code × ShaderWorld :=
  match w.objs.live i with
  | none => (none, w)
  | some t =>
    let (ec, t, sys) := f t w.sys
    (some ec, ⟨w.objs.put i (some t), sys⟩)

/-- The move constructor copies the name and leaves it where it was. -/
def moveConstruct (src : Nat) (w : ShaderWorld) : ShaderWorld :=
  match w.objs.live src with
  | none => w
  | some other => { w with objs := w.objs.push { _ID := other._ID } }

def moveAssign (dst src : Nat) (w : ShaderWorld) : ShaderWorld :=
  match w.objs.live dst, w.objs.live src with
  | some _, some other => { w with objs := w.objs.put dst (some { _ID := other._ID }) }
  | _, _ => w

def destroy (i : Nat) (w : ShaderWorld) : ShaderWorld :=
  match w.objs.live i with
  | none => w
  | some t => ⟨w.objs.put i none, t.destroy w.sys⟩

end ShaderWorld

/-- All the shaders of a program; the answer is the error code a build leaves. -/
def shaders : Machine ShaderWorld ShaderOp (Option error_code) where
  init := ⟨⟨[]⟩, ⟨[], [], [], []⟩⟩
  step w
    | .construct => (none, w.construct)
    | .build i env => w.call i (Shader.build env)
    | .buildPath i vertexPath fragmentPath env =>
      w.call i (Shader.buildPath vertexPath fragmentPath env)
    | .moveConstruct src => (none, w.moveConstruct src)
    | .moveAssign dst src => (none, w.moveAssign dst src)
    | .destroy i => (none, w.destroy i)

end LearnNotes.Graphics
