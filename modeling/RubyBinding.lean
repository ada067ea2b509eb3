import RubyBinding.Main
import RubyBinding.Context
import RubyBinding.Workspace
import RubyBinding.Proofs.Arena
import RubyBinding.Proofs.Runs
import RubyBinding.Proofs.Edits
import RubyBinding.Proofs.Binders
import RubyBinding.Proofs.Plans
import RubyBinding.Proofs.Steps
import RubyBinding.Proofs.Planning
import RubyBinding.Proofs.Builders
import RubyBinding.Proofs.Ownership
import RubyBinding.Proofs.Order
import RubyBinding.Proofs.Depths
import RubyBinding.Proofs.Blocks
import RubyBinding.Proofs.Registration
import RubyBinding.Proofs.Names
import RubyBinding.Proofs.FirstFree
import RubyBinding.Proofs.Layouts
import RubyBinding.Proofs.Walks
import RubyBinding.Proofs.Growth
import RubyBinding.Proofs.Orderly
import RubyBinding.Proofs.Headers
import RubyBinding.Proofs.Histories
import RubyBinding.Proofs.Requests
import RubyBinding.Proofs.Ledgers
import RubyBinding.Proofs.Needs
import RubyBinding.Proofs.Conversions
import RubyBinding.Proofs.Spellings
import RubyBinding.Proofs.Draws
import RubyBinding.Proofs.Identifiers
import RubyBinding.Proofs.Scopes
import RubyBinding.Proofs.Soundness
import RubyBinding.Proofs.Units
import RubyBinding.Proofs.FileNames
import RubyBinding.Proofs.Reentry
import RubyBinding.Proofs.Scalars
import RubyBinding.Proofs.Nesting
import RubyBinding.Proofs.Exchange
import RubyBinding.Proofs.Sections
import RubyBinding.Proofs.Superclasses
import RubyBinding.Proofs.Modules
import RubyBinding.Proofs.Whitelist
import RubyBinding.Proofs.Pairs
import RubyBinding.Proofs.Variants
import RubyBinding.Proofs.Alike
import RubyBinding.Proofs.Parallels
import RubyBinding.Proofs.CustomCode
import RubyBinding.Proofs.Files
import RubyBinding.Proofs.Renames
import RubyBinding.Proofs.Paths
import RubyBinding.Proofs.Meanings
import RubyBinding.Proofs.Ancestors
import RubyBinding.Proofs.Virtuals
import RubyBinding.Proofs.Dispatch
import RubyBinding.Proofs.Directors
import RubyBinding.Proofs.Lookups
import RubyBinding.Proofs.Splices
import RubyBinding.Proofs.Sorting
import RubyBinding.Proofs.Bonds
import RubyBinding.Proofs.Members
import RubyBinding.Proofs.Callbacks
import RubyBinding.Proofs.Parameters
import RubyBinding.Proofs.MemberNames
import RubyBinding.Proofs.Contexts
import RubyBinding.Proofs.Breadth
import RubyBinding.Proofs.Ctors
import RubyBinding.Proofs.Overloads
import RubyBinding.Proofs.PlainTypes
import RubyBinding.Proofs.Words
import RubyBinding.Proofs.Qualifiers
import RubyBinding.Proofs.Literals
import RubyBinding.Proofs.Rereading
import RubyBinding.Proofs.Gists
import RubyBinding.Proofs.Shifts
import RubyBinding.Proofs.Bodies
import RubyBinding.Proofs.Replacements
import RubyBinding.Proofs.Refills
import RubyBinding.Proofs.Emission
import RubyBinding.Proofs.Adoption
import RubyBinding.Proofs.Rendering
