import Kinetics.Emit.Target
/-!
# Headers that all files share

The minimal header, and the file through which a differentiation library computes the Jacobian.
-/

namespace Kinetics.Emit

open Code

variable {α : Type}

def commonHeaderStart : String :=
  "#ifndef HEAD\n#define HEAD\n#include <stdlib.h>\n#include <math.h>\n"
  ++ "/** Constant pressure or volume. */\n#define CONP\n//#define CONV\n\n"
  ++ "/** Include mechanism header to get NSP and NN **/\n#include \"mechanism"

def commonHeaderEnd : String :=
  "\"\n// OpenMP\n#ifdef _OPENMP\n #include <omp.h>\n#else\n #define omp_get_max_threads() 1\n"
  ++ " #define omp_get_num_threads() 1\n#endif\n#endif\n"

def headerOnly (l : Language) : Except Fault String :=
  if l.isBraced then l.headerSuffix else .error (.unsupported "")

def commonHeader (l : Language) : Except Fault (SourceFile α) := do
  let suffix ← headerOnly l
  return {
    path := "header" ++ suffix
    language := l
    parts := [.text (commonHeaderStart ++ suffix ++ commonHeaderEnd)] }

def differentiatedJacobian : SourceFile α where
  path := "ad_jac.c"
  language := .c
  parts := [.text (
    "\n#include <vector>\n#include \"adept.h\"\n#include \"header.h\"\n#include \"ad_dydt.h\"\n"
    ++ "void eval_jacob(const double t, const double p, const double* y,\n"
    ++ "                         double* jac) \x7b\n"
    ++ "    using adept::adouble; // Import Stack and adouble from adept\n"
    ++ "    adept::Stack stack; // Where the derivative information is stored\n"
    ++ "    std::vector<adouble> in(NSP); // Vector of active input variables\n"
    ++ "    adept::set_values(&in[0], NSP, y); // Initialize adouble inputs\n    adouble pres = p;\n"
    ++ "    stack.new_recording(); // Start recording\n"
    ++ "    std::vector<adouble> out(NSP); // Create vector of active output variables\n"
    ++ "    dydt(t, pres, &in[0], &out[0]); // Run algorithm\n"
    ++ "    stack.independent(&in[0], NSP); // Identify independent variables\n"
    ++ "    stack.dependent(&out[0], NSP); // Identify dependent variables\n"
    ++ "    stack.jacobian(jac); // Compute & store Jacobian in jac\n\x7d\n            ")]

end Kinetics.Emit
