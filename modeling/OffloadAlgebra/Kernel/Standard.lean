import OffloadAlgebra.Kernel.Program
/-!
  The standard kernels: their sources and descriptions.

  Each standard kernel has two source fragments, the double-precision pragma and its body, and
  is bound to its host implementation.  The product kernel requests a thread block of 32.
-/

namespace OffloadAlgebra.Standard

/-- The pragma that enables double precision. -/
def doublePragma : String := "#pragma OPENCL EXTENSION cl_khr_fp64 : enable\n"

/-- Source of the product kernel. -/
def multiplySource : String :=
  "\n" ++
  "#define A(i, j) A[(j) * M + (i)]\n" ++
  "#define B(i, j) B[(j) * K + (i)]\n" ++
  "#define C(i, j) C[(j) * M + (i)]\n" ++
  "\n" ++
  "// A is M x K, B is K x N, C is M x N. One work-item per element of C.\n" ++
  "__kernel void matrix_multiply(const __global double* A,\n" ++
  "                              const __global double* B,\n" ++
  "                              __global double* C,\n" ++
  "                              const int M,\n" ++
  "                              const int N,\n" ++
  "                              const int K) \x7b\n" ++
  "    const int row = get_local_id(0);\n" ++
  "    const int col = get_local_id(1);\n" ++
  "    const int i = THREAD_BLOCK_SIZE * get_group_id(0) + row;\n" ++
  "    const int j = THREAD_BLOCK_SIZE * get_group_id(1) + col;\n" ++
  "\n" ++
  "    __local double A_local[THREAD_BLOCK_SIZE][THREAD_BLOCK_SIZE];\n" ++
  "    __local double B_local[THREAD_BLOCK_SIZE][THREAD_BLOCK_SIZE];\n" ++
  "\n" ++
  "    double acc = 0.0;\n" ++
  "    const int num_tiles = (K + THREAD_BLOCK_SIZE - 1) / THREAD_BLOCK_SIZE;\n" ++
  "    for (int t = 0; t < num_tiles; t++) \x7b\n" ++
  "        const int tiled_i = THREAD_BLOCK_SIZE * t + row;\n" ++
  "        const int tiled_j = THREAD_BLOCK_SIZE * t + col;\n" ++
  "        A_local[col][row] = (i < M && tiled_j < K) ? A(i, tiled_j) : 0.0;\n" ++
  "        B_local[col][row] = (tiled_i < K && j < N) ? B(tiled_i, j) : 0.0;\n" ++
  "        barrier(CLK_LOCAL_MEM_FENCE);\n" ++
  "\n" ++
  "        for (int k = 0; k < THREAD_BLOCK_SIZE; k++) \x7b\n" ++
  "            acc += A_local[k][row] * B_local[col][k];\n" ++
  "        \x7d\n" ++
  "        barrier(CLK_LOCAL_MEM_FENCE);\n" ++
  "    \x7d\n" ++
  "\n" ++
  "    if (i < M && j < N) \x7b\n" ++
  "        C(i, j) = acc;\n" ++
  "    \x7d\n" ++
  "\x7d\n"

/-- Source of the transpose kernel. -/
def transposeSource : String :=
  "\n" ++
  "// B (cols x rows) = transpose of A (rows x cols), both column-major.\n" ++
  "__kernel void transpose(__global double* B,\n" ++
  "                        const __global double* A,\n" ++
  "                        const int rows,\n" ++
  "                        const int cols) \x7b\n" ++
  "    const int i = get_global_id(0);\n" ++
  "    const int j = get_global_id(1);\n" ++
  "    if (i < rows && j < cols) \x7b\n" ++
  "        B[i * cols + j] = A[j * rows + i];\n" ++
  "    \x7d\n" ++
  "\x7d\n"

/-- Source of the lower triangular inverse kernel. -/
def lowerTriInverseSource : String :=
  "\n" ++
  "#define A(i, j) A[(j) * N + (i)]\n" ++
  "#define inv(i, j) inv[(j) * N + (i)]\n" ++
  "\n" ++
  "__kernel void lower_tri_inverse(const __global double* A,\n" ++
  "                                __global double* inv,\n" ++
  "                                const int N) \x7b\n" ++
  "    const int j = get_global_id(0);\n" ++
  "    if (j >= N) \x7b\n" ++
  "        return;\n" ++
  "    \x7d\n" ++
  "\n" ++
  "    for (int i = 0; i < j; i++) \x7b\n" ++
  "        inv(i, j) = 0.0;\n" ++
  "    \x7d\n" ++
  "    inv(j, j) = 1.0 / A(j, j);\n" ++
  "    for (int i = j + 1; i < N; i++) \x7b\n" ++
  "        double sum = 0.0;\n" ++
  "        for (int k = j; k < i; k++) \x7b\n" ++
  "            sum += A(i, k) * inv(k, j);\n" ++
  "        \x7d\n" ++
  "        inv(i, j) = -sum / A(i, i);\n" ++
  "    \x7d\n" ++
  "\x7d\n"

/-- The product kernel: A and B in, C out, then the sizes M, N and K. -/
def matrixMultiply : KernelSpec where
  name := "matrix_multiply"
  fragments := [doublePragma, multiplySource]
  options := [("THREAD_BLOCK_SIZE", 32)]
  signature := [.buffer .input, .buffer .input, .buffer .output, .value, .value, .value]
  host := some .matrixMultiply

/-- The transpose kernel: B out, A in, then rows and columns of A. -/
def transpose : KernelSpec where
  name := "transpose"
  fragments := [doublePragma, transposeSource]
  signature := [.buffer .output, .buffer .input, .value, .value]
  host := some .transpose

/-- The lower triangular inverse kernel: A in, the inverse out, then the size N. -/
def lowerTriInverse : KernelSpec where
  name := "lower_tri_inverse"
  fragments := [doublePragma, lowerTriInverseSource]
  signature := [.buffer .input, .buffer .output, .value]
  host := some .lowerTriInverse

/-- A standard kernel by name. -/
def byName? : String → Option KernelSpec
  | "matrix_multiply" => some matrixMultiply
  | "transpose" => some transpose
  | "lower_tri_inverse" => some lowerTriInverse
  | _ => none

end OffloadAlgebra.Standard
