import Kinetics.Emit.Target
/-!
# Memory of the device

The files that allocate and free the arrays of all threads.
-/

namespace Kinetics.Emit

open Code

variable {α : Type}

def deviceMemoryHeader : SourceFile α where
  path := "gpu_memory.cuh"
  language := .cuda
  parts := [.text (
    "#ifndef GPU_MEMORY_CUH\n#define GPU_MEMORY_CUH\n\n#include \"header.cuh\"\n"
    ++ "#include \"gpu_macros.cuh\"\n\n"
    ++ "void initialize_gpu_memory(int, mechanism_memory**, mechanism_memory**);\n"
    ++ "size_t required_mechanism_size();\n"
    ++ "void free_gpu_memory(mechanism_memory**, mechanism_memory**);\n\n#endif\n")]

def requiredSize (arrays : List (String × String)) : String :=
  "size_t required_mechanism_size() \x7b\n"
    ++ "  //returns the total required size for the mechanism per thread\n  size_t mech_size = 0;\n"
    ++ String.join (arrays.map fun (name, size) =>
      "  //" ++ name ++ "\n  mech_size += " ++ size ++ ";\n")
    ++ "  //y_device\n  mech_size += NSP;\n  //pres_device\n  mech_size += 1;\n"
    ++ "  return mech_size * sizeof(double);\n\x7d\n"

def checkedCall (call : String) : String := "  cudaErrorCheck( " ++ call ++ " );\n"

def zeroedArrays : List String := ["spec_rates", "dy", "jac"]

def allocation (arrays : List (String × String)) : String :=
  "void initialize_gpu_memory(int padded, mechanism_memory** h_mem, mechanism_memory** d_mem)\n\x7b\n"
    ++ "  //init vectors\n  // Allocate storage for the device struct\n"
    ++ checkedCall "cudaMalloc(d_mem, sizeof(mechanism_memory))"
    ++ "  //allocate the device arrays on the host pointer\n"
    ++ String.join (arrays.map fun (name, size) =>
      checkedCall ("cudaMalloc(&((*h_mem)->" ++ name ++ "), " ++ size ++ " * padded * sizeof(double))"))
    ++ String.join ((arrays.filter fun a => zeroedArrays.contains a.1).mergeSort
        (fun a b => zeroedArrays.idxOf a.1 ≤ zeroedArrays.idxOf b.1) |>.map fun (name, size) =>
      checkedCall ("cudaMemset((*h_mem)->" ++ name ++ ", 0, " ++ size ++ " * padded * sizeof(double))"))
    ++ checkedCall "cudaMemcpy(*d_mem, *h_mem, sizeof(mechanism_memory), cudaMemcpyHostToDevice)"
    ++ "  //zero out required values\n\x7d\n"

def deallocation (arrays : List (String × String)) : String :=
  "void free_gpu_memory(mechanism_memory** h_mem, mechanism_memory** d_mem)\n\x7b\n"
    ++ String.join (arrays.map fun (name, _) =>
      "  cudaErrorCheck(cudaFree((*h_mem)->" ++ name ++ "));\n")
    ++ "  cudaErrorCheck(cudaFree(*d_mem));\n\x7d\n"

def deviceMemorySource (arrays : List (String × String)) : SourceFile α where
  path := "gpu_memory.cu"
  language := .cuda
  parts := [.text ("#include \"gpu_memory.cuh\"\n\n" ++ requiredSize arrays ++ allocation arrays
    ++ deallocation arrays)]

def deviceMacros : SourceFile α where
  path := "gpu_macros.cuh"
  language := .cuda
  parts := [.text (
    "#ifndef GPU_MACROS_CUH\n#define GPU_MACROS_CUH\n#include <stdio.h>\n#include <cuda.h>\n"
    ++ "#include <cuda_runtime.h>\n#include <helper_cuda.h>\n\n"
    ++ "#define GRID_DIM (blockDim.x * gridDim.x)\n"
    ++ "#define T_ID (threadIdx.x + blockIdx.x * blockDim.x)\n#define INDEX(i) (T_ID + (i) * GRID_DIM)\n"
    ++ "\n#define cudaErrorCheck(ans) \x7b gpuAssert((ans), __FILE__, __LINE__); \x7d\n"
    ++ "inline void gpuAssert(cudaError_t code, const char *file, int line, bool abort=true)\n\x7b\n"
    ++ "    if (code != cudaSuccess)\n    \x7b\n"
    ++ "        fprintf(stderr,\"GPUassert: %s %s %d\\n\", cudaGetErrorString(code), file, line);\n"
    ++ "        if (abort) exit(code);\n    \x7d\n\x7d\n#endif\n")]

end Kinetics.Emit
