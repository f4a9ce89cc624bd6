import Kinetics.Accelerator.Resources
import Kinetics.Code.SourceFile
/-!
# Launch bounds

The sizes with which functions are launched on the accelerator.
-/

namespace Kinetics.Emit

open Code Accelerator

def blockMemory (blocks : Int) (preferCache unshared : Bool) : Except Fault Int :=
  if unshared then .ok 0 else sharedPerBlock blocks preferCache

def launchHeader (blocks threads : Int) (preferCache unshared : Bool) :
    Except Fault (SourceFile Scalar) := do
  let memory ← blockMemory blocks preferCache unshared
  return {
    path := "launch_bounds.cuh"
    language := .cuda
    parts := [.text (
      "#ifndef LAUNCH_BOUNDS_CUH\n#define LAUNCH_BOUNDS_CUH\n#define TARGET_BLOCK_SIZE ("
        ++ toString threads ++ ")\n#define TARGET_BLOCKS (" ++ toString blocks ++ ")\n"
        ++ (if unshared then "" else "//shared memory active\n")
        ++ "#define SHARED_SIZE (" ++ toString memory ++ " * sizeof(double))\n"
        ++ (if preferCache then "//Large L1 cache active\n#define PREFERL1\n"
          else "//Large shared memory active\n")
        ++ "#endif\n")] }

def registerPath : String := "regcount"

def registerFile (blocks threads : Int) : Except Fault (SourceFile Scalar) := do
  let registers ← registersPerThread blocks threads
  return { path := registerPath, language := .cuda, parts := [.text (Scalar.text .shortest registers)] }

end Kinetics.Emit
